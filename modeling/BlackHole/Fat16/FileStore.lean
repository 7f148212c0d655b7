import BlackHole.Fat16.Listing
import BlackHole.Fat16.Layout
import BlackHole.Lib.Machine
import BlackHole.Lib.SlotTable

set_option autoImplicit false

/-! # The file system as a store of files

What `fs/fat16.c` is for: a directory of named files and a stock of free clusters (`FileStore`), with
no sectors, chains or tables in it. The calls of the driver's interface (`FsCall`) are answered by
the driver from the statics and the disk (`FsCall.exec`) and by the store from its files
(`FileStore.exec`). -/

namespace BlackHole

open Bytes

/-! ## Calls and answers -/

/-- A call of the interface in `fat16.h`. The data of a write are the bytes its pointer and its size
    denote. -/
inductive FsCall where
  /-- The machine restarts: the statics are zero again and `kernel_main` calls `fat16_init`. -/
  | boot
  | write (name data : List UInt8)
  | delete (name : List UInt8)
  | read (name : List UInt8) (buffer : ℕ → UInt8) (bufSize : ℕ)
  | list

inductive FsAnswer where
  | booted (ret : ℤ) (printed : Output)
  | wrote (ret : ℤ) (printed : String)
  | deleted (ret : ℤ)
  | read (ret : ℤ) (buffer : ℕ → UInt8)
  | listed (out : List Output)

/-- The data of a write is so short that rounding its size up to clusters does not wrap. -/
def FsCall.Fits (L : Layout) : FsCall → Prop
  | .write _ data => data.length + L.sectorsPerCluster * 512 < 4294967296
  | _ => True

/-- The statics of the driver and the disk behind it. -/
structure FsState where
  layout : Layout
  disk : Disk

/-- The driver answers a call. No answer is a divide error or a loop that has not come to an end. -/
def FsCall.exec (fuel : ℕ) (s : FsState) : FsCall → Option (FsAnswer × FsState)
  | .boot =>
      let r := fat16Init {} s.disk
      some (.booted r.1 r.2.2, { s with layout := r.2.1 })
  | .write name data =>
      (fat16WriteFile fuel s.layout s.disk name (fun k => data.getD k 0) data.length).bind
        fun outcome =>
          match outcome with
          | .divideError _ => none
          | .returned ret d printed => some (.wrote ret printed, { s with disk := d })
  | .delete name =>
      (fat16DeleteFile fuel s.layout s.disk name).map fun r =>
        (.deleted r.1, { s with disk := r.2 })
  | .read name buffer bufSize =>
      (fat16ReadFile fuel s.layout s.disk name buffer bufSize).map fun r => (.read r.1 r.2, s)
  | .list => some (.listed (fat16ListRoot s.layout s.disk), s)

/-! ## The store -/

/-- The clusters a file of `size` bytes takes: its size rounded up, but at least one. -/
def fileClusters (L : Layout) (size : ℕ) : ℕ :=
  max 1 ((size + L.sectorsPerCluster * 512 - 1) / (L.sectorsPerCluster * 512))

/-- What reading a file returns, and the buffer it leaves: the part of the file that fits. -/
def readOf (file : Option (List UInt8)) (buffer : ℕ → UInt8) (bufSize : ℕ) : ℤ × (ℕ → UInt8) :=
  match file with
  | none => (-1, buffer)
  | some bytes =>
      ((min bytes.length bufSize : ℕ),
        memcpy buffer 0 (fun k => bytes.getD k 0) (min bytes.length bufSize))

/-- Named files in the slots of a directory, and how many clusters are left. -/
structure FileStore (L : Layout) where
  dir : SlotTable FatName (List UInt8) (rootSlots L)
  free : ℕ

namespace FileStore

variable {L : Layout}

/-- No file, and the clusters `2..2047`. -/
def formatted (L : Layout) : FileStore L := ⟨SlotTable.empty, 2046⟩

/-- The file of a name is gone, and its clusters are free again. -/
def remove (s : FileStore L) (n : FatName) : FileStore L where
  dir := s.dir.erase n
  free := s.free + ((s.dir.lookup n).map fun bytes => fileClusters L bytes.length).getD 0

theorem remove_of_lookup_eq_none {s : FileStore L} {n : FatName} (h : s.dir.lookup n = none) :
    s.remove n = s := by
  simp only [remove, SlotTable.erase_of_lookup_eq_none h, h, Option.map_none, Option.getD_none,
    Nat.add_zero]

def delete (s : FileStore L) (n : FatName) : ℤ × FileStore L :=
  if s.dir.lookup n = none then (-1, s) else (0, s.remove n)

/-- The second half of a write: the clusters are taken before a slot is looked for, and a write that
    fails has lost them. A name with the mark of a deleted entry in front takes clusters, and leaves
    no file. -/
def enter (s : FileStore L) (n : FatName) (bytes : List UInt8) : ℤ × String × FileStore L :=
  let needed := fileClusters L bytes.length
  if s.free < needed then (-1, "[FAT16] ERROR: Disk full!\n", { s with free := 0 })
  else
    let left : FileStore L := { s with free := s.free - needed }
    match s.dir.insert n bytes with
    | none => (-1, "[FAT16] ERROR: Root directory full!\n", left)
    | some dir => (0, "", if n.byte 0 = 0xE5 then left else { left with dir := dir })

/-- The old version goes first, so that a write that fails has lost it as well. -/
def write (s : FileStore L) (n : FatName) (bytes : List UInt8) : ℤ × String × FileStore L :=
  (s.remove n).enter n bytes

def read (s : FileStore L) (n : FatName) (buffer : ℕ → UInt8) (bufSize : ℕ) : ℤ × (ℕ → UInt8) :=
  readOf (s.dir.lookup n) buffer bufSize

/-- What `printf` is called with for one file. -/
def listedFile (file : FatName × List UInt8) : Output :=
  .printf "  %-13s %u bytes\n" [.str (some (displayName file.1)), .word file.2.length]

/-- A line for each file, in the order of the slots. -/
def list (s : FileStore L) : List Output :=
  if s.dir.entries = [] then [.printf "  (empty directory)\n" []]
  else s.dir.entries.map listedFile

/-- The store answers a call. A restart finds everything as it was. -/
def exec (s : FileStore L) : FsCall → FsAnswer × FileStore L
  | .boot =>
      (.booted 0 (.printf "> FAT16 initialized. Data starts at LBA %u.\n" [.word L.dataStartLba]), s)
  | .write name data =>
      let r := s.write (toFatName name) data
      (.wrote r.1 r.2.1, r.2.2)
  | .delete name =>
      let r := s.delete (toFatName name)
      (.deleted r.1, r.2)
  | .read name buffer bufSize =>
      let r := s.read (toFatName name) buffer bufSize
      (.read r.1 r.2, s)
  | .list => (.listed s.list, s)

/-! ## The files as the answers tell them -/

theorem lookup_remove (s : FileStore L) (n : FatName) :
    (s.remove n).dir.lookup = Function.update s.dir.lookup n none :=
  SlotTable.lookup_erase

/-- The second half of a write sets the file of the name if it returns `0`, and changes no file
    otherwise. -/
theorem lookup_enter (s : FileStore L) (n : FatName) (bytes : List UInt8) :
    (s.enter n bytes).2.2.dir.lookup
      = if (s.enter n bytes).1 = 0 ∧ n.byte 0 ≠ 0xE5 then Function.update s.dir.lookup n (some bytes)
        else s.dir.lookup := by
  have hfail : ¬ ((-1 : ℤ) = 0) := by decide
  simp only [enter]
  split
  · exact (if_neg fun h => hfail h.1).symm
  · rcases hins : s.dir.insert n bytes with _ | dir
    · exact (if_neg fun h => hfail h.1).symm
    · by_cases hE5 : n.byte 0 = 0xE5
      · simp only [if_pos hE5]
        exact (if_neg fun h => h.2 hE5).symm
      · simp only [if_neg hE5]
        rw [if_pos ⟨trivial, hE5⟩]
        exact SlotTable.lookup_insert hins

end FileStore

/-- The files after a call that was answered so: a write that returned `0` sets the file of its name,
    under whatever spelling; any other write, and a delete, removes it. -/
def FsCall.record (files : FatName → Option (List UInt8)) :
    FsCall × FsAnswer → FatName → Option (List UInt8)
  | (.write name data, .wrote ret _) =>
      Function.update files (toFatName name)
        (if ret = 0 ∧ (toFatName name).byte 0 ≠ 0xE5 then some data else none)
  | (.delete name, _) => Function.update files (toFatName name) none
  | _ => files

theorem FileStore.lookup_exec {L : Layout} (s : FileStore L) (call : FsCall) :
    (s.exec call).2.dir.lookup = FsCall.record s.dir.lookup (call, (s.exec call).1) := by
  cases call with
  | boot => rfl
  | read name buffer bufSize => rfl
  | list => rfl
  | delete name =>
      simp only [exec, delete, FsCall.record]
      split
      next hnone => exact (Function.update_eq_self_iff.2 hnone.symm).symm
      next => exact s.lookup_remove _
  | write name data =>
      simp only [exec, write, FsCall.record, lookup_enter, lookup_remove]
      split
      · exact Function.update_idem ..
      · rfl

/-- The store's files are those the calls and the answers tell of. -/
theorem FileStore.lookup_runTotal {L : Layout} (s : FileStore L) (calls : List FsCall) :
    (Machine.runTotal FileStore.exec s calls).2.dir.lookup
      = (calls.zip (Machine.runTotal FileStore.exec s calls).1).foldl FsCall.record s.dir.lookup := by
  induction calls generalizing s with
  | nil => rfl
  | cons call calls ih =>
      rw [Machine.runTotal, List.zip_cons_cons, List.foldl_cons, ← lookup_exec]
      exact ih _

end BlackHole

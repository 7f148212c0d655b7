import BlackHole.Drivers.Ata
import BlackHole.Libc.Stdio

set_option autoImplicit false

/-! # Looking for the drive

`ata_init` sends IDENTIFY and drains the answer. Behind the ports of the primary channel there is a drive
that knows IDENTIFY and takes no command while it is busy or has data to transfer, or there is nothing
and the status reads as zero. On a drive the calls behind `ata_init` find the sectors as they were, and
without one they never return (`ataInit_drive`). -/

namespace BlackHole.Ata

open Bytes

/-- `ata_init`, and what it prints. -/
def Channel.ataInit {δ : Type} (c : Channel δ) (fuel : ℕ) (dev : δ) : Option (Output × δ) := do
  let dev := c.outb dev 0x1F6 0xA0
  let dev := c.outb dev 0x1F2 0
  let dev := c.outb dev 0x1F3 0
  let dev := c.outb dev 0x1F4 0
  let dev := c.outb dev 0x1F5 0
  let dev := c.outb dev 0x1F7 0xEC
  let (status, dev) := c.inbStatus dev
  if status = 0 then return (.printf "[ATA] No primary IDE master drive found.\n" [], dev)
  else
    let dev ← c.ataWaitBsy fuel dev
    let (status, dev) := c.inbStatus dev
    let dev := if status &&& 0x08 ≠ 0 then (List.range 256).foldl (fun dev _ => (c.inw dev).2) dev
      else dev
    return (.printf "> Primary ATA Drive initialized.\n" [], dev)

/-! ## A drive -/

/-- A device that answers IDENTIFY with 256 words. -/
structure Drive where
  device : Device
  identity : ℕ → UInt16
  /-- the words from this one on are still to be read -/
  answer : Option ℕ

namespace Drive

/-- A data request as long as there is an answer to read. -/
def inbStatus (d : Drive) : UInt8 × Drive :=
  match d.answer with
  | none => let (status, device) := Ata.inbStatus d.device; (status, { d with device := device })
  | some _ =>
      if d.device.busy > 0 then
        (0x80, { d with device := { d.device with busy := d.device.busy - 1 } })
      else (0x48, d)

/-- The registers are not written to while the drive is busy or requests data. -/
def outb (d : Drive) (port : ℕ) (v : UInt8) : Drive :=
  if d.inbStatus.1 &&& 0x88 ≠ 0 then d
  else if port = 0x1F7 then
    { d with device := d.device.command v, answer := if v = 0xEC then some 0 else none }
  else { d with device := Ata.outb d.device port v }

def inw (d : Drive) : UInt16 × Drive :=
  match d.answer with
  | none => let (w, device) := Ata.inw d.device; (w, { d with device := device })
  | some next =>
      (d.identity next, { d with answer := if next + 1 = 256 then none else some (next + 1) })

def outw (d : Drive) (w : UInt16) : Drive :=
  match d.answer with
  | none => { d with device := Ata.outw d.device w }
  | some _ => d

def channel : Channel Drive := ⟨outb, inbStatus, inw, outw⟩

/-! ## Waiting -/

theorem inbStatus_busy {d : Drive} {n : ℕ} (hn : d.device.busy = n + 1) :
    channel.inbStatus d = (0x80, { d with device := { d.device with busy := n } }) := by
  show d.inbStatus = _
  obtain ⟨dev, identity, answer⟩ := d
  replace hn : dev.busy = n + 1 := hn
  cases answer with
  | none =>
      have hdevice : Ata.inbStatus dev = _ := Ata.inbStatus_busy hn
      simp only [inbStatus, hdevice]
  | some next =>
      simp only [inbStatus, hn, gt_iff_lt, Nat.succ_pos, if_true, Nat.add_sub_cancel]

/-- The drive has data to transfer. -/
def Requests (d : Drive) : Prop := d.answer ≠ none ∨ d.device.transfer ≠ .idle

theorem inbStatus_ready {d : Drive} (hn : d.device.busy = 0) :
    (d.Requests → channel.inbStatus d = (0x48, d)) ∧
      (¬ d.Requests → channel.inbStatus d = (0x40, d)) := by
  show (_ → d.inbStatus = _) ∧ (_ → d.inbStatus = _)
  obtain ⟨dev, identity, answer⟩ := d
  replace hn : dev.busy = 0 := hn
  cases answer with
  | none =>
      refine ⟨fun hreq => ?_, fun hreq => ?_⟩
      · have hdevice : Ata.inbStatus dev = _ :=
          (Ata.inbStatus_ready hn).2 (hreq.resolve_left (not_not_intro rfl))
        simp only [inbStatus, hdevice]
      · have hdevice : Ata.inbStatus dev = _ :=
          (Ata.inbStatus_ready hn).1 (not_not.1 fun hidle => hreq (Or.inr hidle))
        simp only [inbStatus, hdevice]
  | some next =>
      refine ⟨fun _ => ?_, fun hreq => absurd (Or.inl (by simp)) hreq⟩
      simp only [inbStatus, hn, gt_iff_lt, Nat.lt_irrefl, if_false]

/-- The drive is busy for finitely many status reads. -/
theorem ataWaitBsy_eq {d : Drive} {fuel : ℕ} (hfuel : d.device.busy < fuel) :
    channel.ataWaitBsy fuel d = some { d with device := { d.device with busy := 0 } } := by
  unfold Channel.ataWaitBsy
  induction hn : d.device.busy generalizing d fuel with
  | zero =>
      rw [hn] at hfuel
      refine Loop.iterate_exit_of_lt 0 ?_ fuel hfuel
      have hself : { d with device := { d.device with busy := 0 } } = d := by rw [← hn]
      by_cases hreq : d.Requests
      · rw [(inbStatus_ready hn).1 hreq, hself]
        rfl
      · rw [(inbStatus_ready hn).2 hreq, hself]
        rfl
  | succ n ih =>
      obtain ⟨fuel, rfl⟩ : ∃ k, fuel = k + 1 := ⟨fuel - 1, by omega⟩
      rw [Loop.iterate_succ_again fuel (by rw [inbStatus_busy hn]; rfl)]
      exact ih (d := { d with device := { d.device with busy := n } }) (show n < fuel by omega) rfl

theorem ataWaitDrq_eq {d : Drive} {fuel : ℕ} (hn : d.device.busy = 0) (hreq : d.Requests)
    (hfuel : 0 < fuel) : channel.ataWaitDrq fuel d = some d := by
  unfold Channel.ataWaitDrq
  refine Loop.iterate_exit_of_lt 0 ?_ fuel hfuel
  rw [(inbStatus_ready hn).1 hreq]
  rfl

/-! ## Sectors -/

/-- There is nothing to transfer; the drive may be busy. -/
structure Idle (d : Drive) : Prop where
  answer : d.answer = none
  transfer : d.device.transfer = .idle

/-- The drive with this device and no answer left. -/
def withDevice (d : Drive) (device : Device) : Drive := { d with device := device, answer := none }

theorem Idle.withDevice_self {d : Drive} (h : d.Idle) : d.withDevice d.device = d := by
  rw [withDevice, ← h.answer]

theorem Idle.not_requests {d : Drive} (h : d.Idle) : ¬ d.Requests := by
  rintro (hanswer | htransfer)
  · exact hanswer h.answer
  · exact htransfer h.transfer

section

variable {d : Drive} {dev : Device} {fuel lba : ℕ}

/-- Ready for a command or for the registers of one. -/
structure Ready (dev : Device) : Prop where
  busy : dev.busy = 0
  transfer : dev.transfer = .idle

theorem inbStatus_withDevice (h : Ready dev) :
    ¬ (d.withDevice dev).inbStatus.1 &&& 0x88 ≠ 0 := by
  have hstatus : (d.withDevice dev).inbStatus = _ :=
    (inbStatus_ready h.busy).2 (show (d.withDevice dev).Idle from ⟨rfl, h.transfer⟩).not_requests
  rw [hstatus]
  show ¬ (0x40 : UInt8) &&& 0x88 ≠ 0
  decide

/-- A drive that is ready takes the registers as its device does. -/
theorem outb_register (port : ℕ) (hport : port ≠ 0x1F7) {v : UInt8} (h : Ready dev) :
    channel.outb (d.withDevice dev) port v = d.withDevice (Ata.outb dev port v) := by
  show Drive.outb _ port v = _
  rw [outb, if_neg (inbStatus_withDevice h), if_neg hport]
  rfl

theorem outb_command (v : UInt8) (hv : v ≠ 0xEC) (h : Ready dev) :
    channel.outb (d.withDevice dev) 0x1F7 v = d.withDevice (Ata.outb dev 0x1F7 v) := by
  show Drive.outb _ 0x1F7 v = _
  rw [outb, if_neg (inbStatus_withDevice h), if_pos rfl, if_neg hv]
  rfl

theorem outb_identify (h : Ready dev) : channel.outb (d.withDevice dev) 0x1F7 0xEC
    = { d with device := dev.command 0xEC, answer := some 0 } := by
  show Drive.outb _ 0x1F7 0xEC = _
  rw [outb, if_neg (inbStatus_withDevice h), if_pos rfl, if_pos rfl]
  rfl

theorem ataPioSetup_withDevice (hbusy : dev.busy < fuel) (hidle : dev.transfer = .idle) (lba : ℕ) :
    channel.ataPioSetup fuel (d.withDevice dev) lba 0 = some (d.withDevice (dev.setup lba)) := by
  have hwait : channel.ataWaitBsy fuel (d.withDevice dev)
      = some (d.withDevice { dev with busy := 0 }) := ataWaitBsy_eq hbusy
  unfold Channel.ataPioSetup
  rw [hwait]
  simp only [Option.bind_eq_bind, Option.bind_some]
  rw [outb_register 0x1F6 (by decide), outb_register 0x1F1 (by decide), outb_register 0x1F2 (by decide),
    outb_register 0x1F3 (by decide), outb_register 0x1F4 (by decide), outb_register 0x1F5 (by decide)]
  · rfl
  all_goals exact ⟨rfl, hidle⟩

/-- The command behind the setup, and the waiting until the drive requests the data. -/
theorem issue_withDevice (hlatency : dev.latency dev.commands < fuel) (lba : ℕ) {t : Transfer}
    (ht : t ≠ .idle) :
    channel.ataWaitBsy fuel (d.withDevice (dev.issued lba t)) = some (d.withDevice (dev.ready lba t)) ∧
      channel.ataWaitDrq fuel (d.withDevice (dev.ready lba t))
        = some (d.withDevice (dev.ready lba t)) :=
  ⟨ataWaitBsy_eq hlatency, ataWaitDrq_eq rfl (Or.inr ht) (by omega)⟩

theorem ataReadSector_eq (h : d.Idle) (hlba : lba < 268435456) (buffer : Sector) :
    ∃ d', d'.Idle ∧ d'.device.disk = d.device.disk ∧
      ∀ fuel, d.device.busy < fuel → d.device.latency d.device.commands < fuel →
        channel.ataReadSector fuel d lba buffer
          = some (d', BlackHole.ataReadSector d.device.disk lba) := by
  have hloop := foldl_unpackWord (d.device.ready lba (.reading lba 0)) rfl buffer
  refine ⟨d.withDevice { d.device.ready lba (.reading lba 0) with transfer := .idle }, ⟨rfl, rfl⟩,
    disk_of_sectors rfl, fun fuel hbusy hlatency => ?_⟩
  obtain ⟨hwait, hdrq⟩ := issue_withDevice (d := d) hlatency lba
    (show Transfer.reading lba 0 ≠ .idle by simp)
  have hunpack : ∀ st i, channel.unpackWord (Prod.map d.withDevice id st) i
      = Prod.map d.withDevice id (Device.channel.unpackWord st i) := fun _ _ => rfl
  have hsetup : channel.ataPioSetup fuel d lba 0 = some (d.withDevice (d.device.setup lba)) := by
    rw [← ataPioSetup_withDevice hbusy h.transfer, h.withDevice_self]
  have hcommand : channel.outb (d.withDevice (d.device.setup lba)) 0x1F7 0x20
      = d.withDevice (d.device.issued lba (.reading lba 0)) := by
    rw [outb_command 0x20 (by decide) (show Ready (d.device.setup lba) from ⟨rfl, h.transfer⟩),
      command_read d.device hlba]
  simp only [Channel.ataReadSector, Option.bind_eq_bind, hsetup, hcommand, hwait, hdrq,
    Option.bind_some]
  rw [show (d.withDevice (d.device.ready lba (.reading lba 0)), buffer)
      = Prod.map d.withDevice id (d.device.ready lba (.reading lba 0), buffer) from rfl,
    List.foldl_hom (Prod.map d.withDevice id) hunpack, hloop]
  rfl

theorem ataWriteSector_eq (h : d.Idle) (hlba : lba < 268435456) (buffer : Sector) :
    ∃ d', d'.Idle ∧ d'.device.disk = BlackHole.ataWriteSector d.device.disk lba buffer ∧
      ∀ fuel, d.device.busy < fuel → d.device.latency d.device.commands < fuel →
        d.device.latency (d.device.commands + 1) < fuel →
        channel.ataWriteSector fuel d lba buffer = some d' := by
  obtain ⟨words, hloop, hwords⟩ :=
    foldl_packWord (d.device.ready lba (.writing lba 0 fun _ => 0)) rfl buffer
  refine ⟨d.withDevice { d.device.ready lba .idle with
      sectors := Function.update d.device.sectors lba words, commands := d.device.commands + 2 },
    ⟨rfl, rfl⟩, disk_update rfl hwords, fun fuel hbusy hlatency hflush => ?_⟩
  obtain ⟨hwait, hdrq⟩ := issue_withDevice (d := d) hlatency lba
    (show Transfer.writing lba 0 (fun _ => 0) ≠ .idle by simp)
  have hpack : ∀ dev i, channel.outw (d.withDevice dev)
      (packWord (buffer.byte (i * 2)) (buffer.byte (i * 2 + 1)))
      = d.withDevice (Ata.outw dev (packWord (buffer.byte (i * 2)) (buffer.byte (i * 2 + 1)))) :=
    fun _ _ => rfl
  have hsetup : channel.ataPioSetup fuel d lba 0 = some (d.withDevice (d.device.setup lba)) := by
    rw [← ataPioSetup_withDevice hbusy h.transfer, h.withDevice_self]
  have hcommand : channel.outb (d.withDevice (d.device.setup lba)) 0x1F7 0x30
      = d.withDevice (d.device.issued lba (.writing lba 0 fun _ => 0)) := by
    rw [outb_command 0x30 (by decide) (show Ready (d.device.setup lba) from ⟨rfl, h.transfer⟩),
      command_write d.device hlba]
  simp only [Channel.ataWriteSector, Option.bind_eq_bind, hsetup, hcommand, hwait, hdrq,
    Option.bind_some]
  rw [List.foldl_hom d.withDevice hpack, hloop, outb_command 0xE7 (by decide) (Ready.mk rfl rfl)]
  exact ataWaitBsy_eq hflush

end

/-- A drive that has nothing to transfer serves the sectors of its disk. -/
theorem serves : channel.Serves fun d disk => d.Idle ∧ d.device.disk = disk where
  read := by
    rintro d _ lba buffer ⟨hidle, rfl⟩ hlba
    obtain ⟨d', hidle', hdisk, hread⟩ := ataReadSector_eq hidle hlba buffer
    exact ⟨d', ⟨hidle', hdisk⟩, max d.device.busy (d.device.latency d.device.commands),
      fun fuel hfuel => hread fuel (by omega) (by omega)⟩
  write := by
    rintro d _ lba buffer ⟨hidle, rfl⟩ hlba
    obtain ⟨d', hidle', hdisk, hwrite⟩ := ataWriteSector_eq hidle hlba buffer
    exact ⟨d', ⟨hidle', hdisk⟩, max d.device.busy (max (d.device.latency d.device.commands)
      (d.device.latency (d.device.commands + 1))),
      fun fuel hfuel => hwrite fuel (by omega) (by omega) (by omega)⟩

/-! ## `ata_init` -/

/-- The device when IDENTIFY has been answered. -/
def identified (dev : Device) : Device :=
  { dev with
    drive := 0xA0, sectorCnt := 0, lbaLo := 0, lbaMid := 0, lbaHi := 0
    transfer := .idle, busy := 0, commands := dev.commands + 1 }

/-- The drive is not in the middle of a write: what it transfers is read, and not all of it has been. -/
structure NotWriting (d : Drive) : Prop where
  answer : ∀ next, d.answer = some next → next < 256 ∧ d.device.transfer = .idle
  transfer : d.device.transfer = .idle ∨ ∃ lba next, next < 256 ∧ d.device.transfer = .reading lba next

/-- How many words are still to be read. -/
def wordsLeft (d : Drive) : ℕ :=
  match d.answer with
  | some next => 256 - next
  | none => match d.device.transfer with
    | .reading _ next => 256 - next
    | _ => 0

theorem wordsLeft_le (d : Drive) : d.wordsLeft ≤ 256 := by
  unfold wordsLeft
  split
  · omega
  · split <;> omega

theorem NotWriting.idle {d : Drive} (h : d.NotWriting) (hleft : d.wordsLeft = 0) : d.Idle := by
  obtain ⟨dev, identity, answer⟩ := d
  cases answer with
  | some next =>
      have hnext := (h.answer next rfl).1
      exact absurd hleft (Nat.sub_ne_zero_of_lt hnext)
  | none =>
      refine ⟨rfl, h.transfer.resolve_right ?_⟩
      rintro ⟨lba, next, hnext, htransfer⟩
      replace htransfer : dev.transfer = .reading lba next := htransfer
      simp only [wordsLeft, htransfer] at hleft
      omega

/-- A read of the data port takes one of the words that are left. -/
theorem NotWriting.inw {d : Drive} (h : d.NotWriting) : (channel.inw d).2.NotWriting ∧
    (channel.inw d).2.wordsLeft = d.wordsLeft - 1 ∧
      (channel.inw d).2.device.sectors = d.device.sectors := by
  show d.inw.2.NotWriting ∧ d.inw.2.wordsLeft = _ ∧ d.inw.2.device.sectors = _
  obtain ⟨dev, identity, answer⟩ := d
  cases answer with
  | some next =>
      obtain ⟨hnext, hidle⟩ := h.answer next rfl
      replace hidle : dev.transfer = .idle := hidle
      simp only [Drive.inw]
      by_cases hlast : next + 1 = 256
      · rw [if_pos hlast]
        refine ⟨⟨fun _ => nofun, Or.inl hidle⟩, ?_, trivial⟩
        simp only [wordsLeft, hidle]
        omega
      · rw [if_neg hlast]
        refine ⟨⟨?_, Or.inl hidle⟩, ?_, trivial⟩
        · rintro _ ⟨⟩
          exact ⟨by omega, hidle⟩
        · simp only [wordsLeft]
          omega
  | none =>
      rcases h.transfer with hidle | ⟨lba, next, hnext, hreading⟩
      · replace hidle : dev.transfer = .idle := hidle
        simp only [Drive.inw, Ata.inw, hidle]
        exact ⟨h, by simp only [wordsLeft, hidle], trivial⟩
      · replace hreading : dev.transfer = .reading lba next := hreading
        simp only [Drive.inw, Ata.inw, hreading]
        by_cases hlast : next + 1 = 256
        · rw [if_pos hlast]
          refine ⟨⟨fun _ => nofun, Or.inl rfl⟩, ?_, trivial⟩
          simp only [wordsLeft, hreading]
          omega
        · rw [if_neg hlast]
          refine ⟨⟨fun _ => nofun, Or.inr ⟨lba, next + 1, by omega, rfl⟩⟩, ?_, trivial⟩
          simp only [wordsLeft, hreading]
          omega

/-- The loop that drains the answer to IDENTIFY drains whatever there is. -/
theorem NotWriting.drain {d : Drive} (h : d.NotWriting) :
    ((List.range 256).foldl (fun d _ => (channel.inw d).2) d).Idle ∧
      ((List.range 256).foldl (fun d _ => (channel.inw d).2) d).device.disk = d.device.disk := by
  have hloop := Loop.foldl_range_invariant (n := 256) (s := d)
    (f := fun d _ => (channel.inw d).2) (fun i d' => d'.NotWriting ∧ d'.wordsLeft = d.wordsLeft - i ∧
      d'.device.sectors = d.device.sectors) ⟨h, rfl, rfl⟩ ?_
  · obtain ⟨hread, hleft, hsectors⟩ := hloop
    have hle := d.wordsLeft_le
    exact ⟨hread.idle (by omega), disk_of_sectors hsectors⟩
  · rintro i d' - ⟨hread, hleft, hsectors⟩
    obtain ⟨hread', hleft', hsectors'⟩ := hread.inw
    exact ⟨hread', by omega, hsectors'.trans hsectors⟩

/-- The loop reads all of an answer. -/
theorem drain_answer {d : Drive} (h : d.answer = some 0) :
    (List.range 256).foldl (fun d _ => (channel.inw d).2) d = { d with answer := none } := by
  have hloop := Loop.foldl_range_invariant (n := 256) (s := d)
    (f := fun d _ => (channel.inw d).2)
    (fun i d' => d' = { d with answer := if i = 256 then none else some i }) ?_ ?_
  · exact hloop
  · rw [if_neg (by decide), ← h]
  · rintro i d' hi rfl
    rw [if_neg (by omega)]
    rfl

/-- The first read of the status, busy or not. -/
theorem inbStatus_first (d : Drive) : ∃ status n, n ≤ d.device.busy ∧ status ≠ 0 ∧
    channel.inbStatus d = (status, { d with device := { d.device with busy := n } }) := by
  rcases hb : d.device.busy with _ | n
  · by_cases hreq : d.Requests
    · exact ⟨0x48, d.device.busy, hb.le, by decide, (inbStatus_ready hb).1 hreq⟩
    · exact ⟨0x40, d.device.busy, hb.le, by decide, (inbStatus_ready hb).2 hreq⟩
  · exact ⟨0x80, n, Nat.le_succ n, by decide, inbStatus_busy hb⟩

/-- `ata_init` behind its writes to the registers, which have left the drive `d`. -/
theorem ataInit_behind {d d₀ : Drive} {fuel : ℕ} (hfuel : d.device.busy < fuel)
    (hwrites : channel.outb (channel.outb (channel.outb (channel.outb (channel.outb
      (channel.outb d₀ 0x1F6 0xA0) 0x1F2 0) 0x1F3 0) 0x1F4 0) 0x1F5 0) 0x1F7 0xEC = d) :
    channel.ataInit fuel d₀ = some (.printf "> Primary ATA Drive initialized.\n" [],
      if (channel.inbStatus { d with device := { d.device with busy := 0 } }).1 &&& 0x08 ≠ 0 then
        (List.range 256).foldl (fun d _ => (channel.inw d).2)
          { d with device := { d.device with busy := 0 } }
      else { d with device := { d.device with busy := 0 } }) := by
  obtain ⟨status, n, hn, hne, hstatus⟩ := d.inbStatus_first
  have hwait := ataWaitBsy_eq (d := { d with device := { d.device with busy := n } })
    (show n < fuel from lt_of_le_of_lt hn hfuel)
  have hsecond : (channel.inbStatus { d with device := { d.device with busy := 0 } }).2
      = { d with device := { d.device with busy := 0 } } := by
    by_cases hreq : Requests { d with device := { d.device with busy := 0 } }
    · rw [(inbStatus_ready rfl).1 hreq]
    · rw [(inbStatus_ready rfl).2 hreq]
  unfold Channel.ataInit
  simp only [hwrites, hstatus]
  rw [if_neg hne, hwait]
  simp only [Option.bind_eq_bind, Option.bind_some, hsecond]
  rfl

/-- IDENTIFY is sent to a drive that is ready, and all of its answer is read. -/
theorem Idle.ataInit {d : Drive} (h : d.Idle) (hbusy : d.device.busy = 0) {fuel : ℕ}
    (hfuel : d.device.latency d.device.commands < fuel) :
    channel.ataInit fuel d = some (.printf "> Primary ATA Drive initialized.\n" [],
      d.withDevice (identified d.device)) := by
  rw [ataInit_behind (d := { d with
    device := { identified d.device with busy := d.device.latency d.device.commands }
    answer := some 0 }) hfuel ?_]
  · rw [(inbStatus_ready rfl).1 (Or.inl (by simp)),
      if_pos (show (0x48 : UInt8) &&& 0x08 ≠ 0 by decide), drain_answer rfl]
    rfl
  · conv_lhs => rw [← h.withDevice_self]
    rw [outb_register 0x1F6 (by decide), outb_register 0x1F2 (by decide),
      outb_register 0x1F3 (by decide), outb_register 0x1F4 (by decide), outb_register 0x1F5 (by decide),
      outb_identify]
    · rfl
    all_goals exact ⟨hbusy, h.transfer⟩

/-- A drive that is busy or requests data takes no write to its registers. -/
theorem outb_kept {d : Drive} (h : d.device.busy ≠ 0 ∨ d.Requests) (port : ℕ) (v : UInt8) :
    channel.outb d port v = d := by
  refine if_pos ?_
  rcases hb : d.device.busy with _ | n
  · rw [show d.inbStatus = _ from (inbStatus_ready hb).1 (h.resolve_left (not_not_intro hb))]
    show (0x48 : UInt8) &&& 0x88 ≠ 0
    decide
  · rw [show d.inbStatus = _ from inbStatus_busy hb]
    show (0x80 : UInt8) &&& 0x88 ≠ 0
    decide

/-- A drive that is busy or has data to be read does not take IDENTIFY; what it has is drained. -/
theorem NotWriting.ataInit {d : Drive} (h : d.NotWriting)
    (hrefuses : d.device.busy ≠ 0 ∨ d.Requests) : ∃ d₁, d₁.Idle ∧ d₁.device.disk = d.device.disk ∧
      ∀ fuel, d.device.busy < fuel → channel.ataInit fuel d
        = some (.printf "> Primary ATA Drive initialized.\n" [], d₁) := by
  have hkept := outb_kept hrefuses
  set d₀ : Drive := { d with device := { d.device with busy := 0 } }
  have h₀ : d₀.NotWriting := ⟨h.answer, h.transfer⟩
  have hrun := fun fuel (hfuel : d.device.busy < fuel) =>
    (ataInit_behind hfuel (by simp only [hkept]) : channel.ataInit fuel d = _)
  by_cases hreq : d₀.Requests
  · rw [(inbStatus_ready rfl).1 hreq, if_pos (show (0x48 : UInt8) &&& 0x08 ≠ 0 by decide)] at hrun
    exact ⟨_, h₀.drain.1, h₀.drain.2, hrun⟩
  · rw [(inbStatus_ready rfl).2 hreq, if_neg (show ¬ (0x40 : UInt8) &&& 0x08 ≠ 0 by decide)] at hrun
    rw [Requests, not_or, not_not, not_not] at hreq
    exact ⟨_, ⟨hreq.1, hreq.2⟩, rfl, hrun⟩

/-- Whatever a drive is doing, unless it is in the middle of a write, `ata_init` finds it and leaves it
    with nothing to transfer; to one that is ready it sends IDENTIFY. -/
theorem ataInit_eq {d : Drive} (h : d.NotWriting) : ∃ d₁, d₁.Idle ∧
    d₁.device.disk = d.device.disk ∧
    (d.Idle → d.device.busy = 0 → d₁ = d.withDevice (identified d.device)) ∧
    ∃ N, ∀ fuel, N < fuel → channel.ataInit fuel d
      = some (.printf "> Primary ATA Drive initialized.\n" [], d₁) := by
  by_cases hready : d.Idle ∧ d.device.busy = 0
  · exact ⟨d.withDevice (identified d.device), ⟨rfl, rfl⟩, disk_of_sectors rfl, fun _ _ => rfl, _,
      fun fuel hfuel => hready.1.ataInit hready.2 hfuel⟩
  · obtain ⟨d₁, hidle, hdisk, hrun⟩ := h.ataInit (by
      by_contra hno
      rw [not_or, not_not, Requests, not_or, not_not, not_not] at hno
      exact hready ⟨⟨hno.2.1, hno.2.2⟩, hno.1⟩)
    exact ⟨d₁, hidle, hdisk, fun h₁ h₂ => absurd ⟨h₁, h₂⟩ hready, _, hrun⟩

end Drive

/-! ## No drive -/

/-- A drive that is busy, with words of an earlier answer left. -/
def interrupted : Drive :=
  ⟨⟨fun _ _ => 0, 0, 1, 0, 0, 0, 0xE0, .idle, 2, fun _ => 3, 5⟩, fun _ => 0x40, some 200⟩

theorem interrupted_notWriting : interrupted.NotWriting where
  answer := by
    rintro _ ⟨⟩
    exact ⟨by decide, rfl⟩
  transfer := Or.inl rfl

end BlackHole.Ata

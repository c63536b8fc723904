import Codeword.Fermi.Addresses
import Codeword.Fermi.Flags

namespace Codeword.Fermi

def guard : Table where
  name := "p"
  rows :=
    [⟨0x1c00, 0x3c00, []⟩,
     ⟨0x3c00, 0x3c00, ["never"]⟩,
     ⟨0x0000, 0x2000, [guardPredicate]⟩,
     ⟨0x2000, 0x2000, ["not", guardPredicate]⟩]

/-- A near target, or its offset in constant memory. -/
def branchTarget : Table where
  name := "btarg"
  rows := [⟨0, 0x4000, [branchNear]⟩, ⟨0x4000, 0x4000, ["pcrel", constant]⟩]

def controlMask : Word := 0xf800_0000_0000_0007

def controlMaskConstant : Word := controlMask ||| 0x4000

def controlCode (opcode : Word) : Word := opcode <<< 56 ||| 7

def controlCodeConstant (opcode : Word) : Word := controlCode opcode ||| 0x4000

/-- Each of these makes a later jump of its kind possible. -/
def pushes : List (Word × String) :=
  [(0x58, "prelongjmp"), (0x60, "joinat"), (0x68, "prebrk"), (0x70, "precont"),
   (0x78, "preret")]

def jumps : List (Word × String) :=
  [(0x80, "exit"), (0x88, "longjmp"), (0x90, "ret"), (0x98, "discard"), (0xa8, "brk"),
   (0xb0, "cont")]

def transferRows : List Row :=
  [⟨controlCode 0x00, controlMaskConstant,
    [guard, conditionGuard, .opcode "bra", limited, allWarp, "abs", branchFar]⟩,
   ⟨controlCodeConstant 0x00, controlMaskConstant,
    [guard, conditionGuard, .opcode "bra", limited, allWarp, constant]⟩,
   ⟨controlCode 0x08, controlMaskConstant,
    [guard, conditionGuard, .opcode "bra", limited, src1, "abs", numberFar]⟩,
   ⟨controlCodeConstant 0x08, controlMaskConstant,
    [guard, conditionGuard, .opcode "bra", limited, src1, constant]⟩,
   ⟨controlCode 0x10, controlMaskConstant, [.opcode "call", limited, "abs", callFar]⟩,
   ⟨controlCodeConstant 0x10, controlMaskConstant, [.opcode "call", limited, constant]⟩,
   ⟨controlCode 0x40, controlMask,
    [guard, conditionGuard, .opcode "bra", limited, allWarp, branchTarget]⟩,
   ⟨controlCode 0x48, controlMaskConstant,
    [guard, conditionGuard, .opcode "bra", limited, src1, numberNear]⟩,
   ⟨controlCodeConstant 0x48, controlMaskConstant,
    [guard, conditionGuard, .opcode "bra", limited, src1, "pcrel", constant]⟩,
   ⟨controlCode 0x50, controlMaskConstant, [.opcode "call", limited, callNear]⟩,
   ⟨controlCodeConstant 0x50, controlMaskConstant,
    [.opcode "call", limited, "pcrel", constant]⟩]

def machineRows : List Row :=
  [⟨controlCode 0xc0, controlMask, [.opcode "quadon"]⟩,
   ⟨controlCode 0xc8, controlMask, [.opcode "quadpop"]⟩,
   ⟨controlCode 0xd0, controlMask ||| 0xc000, [.opcode "membar", "cta"]⟩,
   ⟨controlCode 0xd0 ||| 0xc000, controlMask ||| 0xc000, [.opcode "trap"]⟩]

/-- Control flow, class 7. Most of the unknown instructions have a branch target. -/
def control : Table where
  name := "control"
  rows :=
    transferRows ++
    pushes.map (fun (opcode, name) =>
      ⟨controlCode opcode, controlMask, [.opcode name, branchTarget]⟩) ++
    jumps.map (fun (opcode, name) =>
      ⟨controlCode opcode, controlMask, [guard, conditionGuard, .opcode name]⟩) ++
    machineRows ++
    [⟨7, 7, [guard, .unrecognized, branchNear]⟩, .unknown []]

end Codeword.Fermi

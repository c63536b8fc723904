import Codeword.Fermi.DualLoad
import Codeword.Fermi.Move

namespace Codeword.Fermi

def noSource3 : Word := 0x007e_0000_0000_0000

def reductionMask : Word := opcodeMask ||| 0x200

def atomicMask : Word := 0xf87e_0000_0000_0307

def atomicMaskFull : Word := 0xf87e_0000_0000_03e7

/-- Atomic operations, without and with a result. Only a comparison has a third source. -/
def atomicRows : List Row :=
  [⟨code 0x10 5, reductionMask, [reduction, "u32", globalAddress, dst]⟩,
   ⟨code 0x10 5 ||| 0x200, reductionMask, [.opcode "add", "u64", globalAddress, dstPair]⟩,
   ⟨code 0x18 5 ||| 0x200, reductionMask, [signedReduction, "s32", globalAddress, dst]⟩,
   ⟨code 0x28 5 ||| 0x200, reductionMask, [.opcode "add", "f32", globalAddress, dst]⟩,
   ⟨code 0x50 5 ||| noSource3, atomicMask,
    [.opcode "ld", reduction, "u32", old, atomicAddress, dst]⟩,
   ⟨code 0x50 5 ||| noSource3 ||| 0x200, atomicMaskFull,
    [.opcode "ld", "add", "u64", old, atomicAddress, dst]⟩,
   ⟨code 0x50 5 ||| noSource3 ||| 0x100, atomicMaskFull,
    [.opcode "exch", "b32", old, atomicAddress, dst]⟩,
   ⟨code 0x50 5 ||| noSource3 ||| 0x300, atomicMaskFull,
    [.opcode "exch", "b64", oldPair, atomicAddress, dstPair]⟩,
   ⟨code 0x50 5 ||| 0x120, opcodeMask ||| 0x3e0,
    [.opcode "cas", "b32", old, atomicAddress, dst, src3]⟩,
   ⟨code 0x50 5 ||| 0x320, opcodeMask ||| 0x3e0,
    [.opcode "cas", "b64", oldPair, atomicAddress, dstPair, src3Pair]⟩,
   ⟨code 0x58 5 ||| noSource3 ||| 0x200, atomicMask,
    [.opcode "ld", signedReduction, "s32", old, atomicAddress, dst]⟩,
   ⟨code 0x68 5 ||| noSource3 ||| 0x200, atomicMaskFull,
    [.opcode "ld", "add", "f32", old, atomicAddress, dst]⟩]

def globalRows : List Row :=
  [⟨code 0x80 5, opcodeMask, [.opcode "ld", accessType, accessData, loadCache, globalAddress]⟩,
   ⟨code 0x88 5, opcodeMask, [.opcode "ldu", accessType, accessData, globalAddress]⟩,
   ⟨code 0x90 5, opcodeMask,
    [.opcode "st", accessType, storeCache, globalAddress, accessData]⟩,
   ⟨code 0x98 5, opcodeMask,
    [.opcode "cctl", cacheOperation, cacheSpace, dst, cacheAddress]⟩,
   ⟨code 0xa0 5, opcodeMask,
    [.opcode "ld", "lock", accessType, globalLock, accessData, global]⟩,
   ⟨code 0xa8 5, opcodeMask,
    [.opcode "ld", loadDestination, loadSharedSource, .opcode "ldu", uniformDestination,
     uniformSource]⟩,
   ⟨code 0xb0 5, 0xf000_0000_0000_0007,
    [.opcode "ld", loadDestination, loadGlobalSource, .opcode "ldu", uniformDestination,
     uniformSource]⟩]

/-- Bit 0x38 is set for shared memory. -/
def nearMask : Word := 0xfd00_0000_0000_0007

def nearRows : List Row :=
  [⟨code 0xc0 5, nearMask, [.opcode "ld", accessType, accessData, loadCache, localMemory]⟩,
   ⟨code 0xc1 5, nearMask, [.opcode "ld", accessType, accessData, shared]⟩,
   ⟨code 0xc4 5, opcodeMask6,
    [.opcode "ld", "lock", accessType, sharedLock, accessData, shared]⟩,
   ⟨code 0xc8 5, nearMask, [.opcode "st", accessType, storeCache, localMemory, accessData]⟩,
   ⟨code 0xc9 5, nearMask, [.opcode "st", accessType, shared, accessData]⟩,
   ⟨code 0xcc 5, opcodeMask6,
    [.opcode "st", "unlock", accessType, shared, accessData]⟩,
   ⟨code 0xd0 5, opcodeMask6, [.opcode "cctl", cacheOperation, dst, localMemory]⟩]

/-- Set in every known surface instruction. -/
def surfaceBit : Word := 1 <<< 0x2e

def surfaceRows : List Row :=
  [⟨code 0xd4 5 ||| surfaceBit, opcodeMask6 ||| surfaceBit,
    [.opcode "suldb", accessType, accessData, loadCache, surfaceClamp, surface,
     surfaceAddress]⟩,
   ⟨code 0xd8 5 ||| surfaceBit ||| 1 <<< 0x20, opcodeMask6 ||| surfaceBit ||| 1 <<< 0x20,
    [.opcode "suredp", reduction, surfaceClamp, surface, surfaceAddress, dst]⟩,
   ⟨code 0xdc 5 ||| surfaceBit, opcodeMask6 ||| surfaceBit ||| 1 <<< 0x31,
    [.opcode "sustb", accessType, storeCache, surfaceClamp, surface, surfaceAddress,
     accessData]⟩,
   ⟨code 0xdc 5 ||| surfaceBit ||| 1 <<< 0x31, opcodeMask6 ||| surfaceBit ||| 1 <<< 0x31,
    [.opcode "sustp", storeCache, surfaceClamp, surface, surfaceAddress, dst]⟩]

def orderRows : List Row :=
  [⟨code 0xe0 5, opcodeMask ||| 0x60, [.opcode "membar", "prep"]⟩,
   ⟨code 0xe0 5 ||| 0x20, opcodeMask ||| 0x60, [.opcode "membar", "gl"]⟩,
   ⟨code 0xe0 5 ||| 0x40, opcodeMask ||| 0x60, [.opcode "membar", "sys"]⟩,
   ⟨code 0xe8 5, opcodeMask6, [.opcode "st", "unlock", accessType, global, accessData]⟩,
   ⟨code 0xf0 5 ||| surfaceBit ||| 0x80, opcodeMask6 ||| surfaceBit ||| 0x80,
    [.opcode "suleab", .register (predicate 0x36), dstPair, accessType, surfaceClamp, surface,
     surfaceAddress]⟩]

/-- Global, shared, local and surface memory, class 5. -/
def memory : Table where
  name := "memory"
  rows := atomicRows ++ globalRows ++ nearRows ++ surfaceRows ++ orderRows ++ [.unknown []]

end Codeword.Fermi

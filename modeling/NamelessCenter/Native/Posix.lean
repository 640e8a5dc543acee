import NamelessCenter.Lib.Bytes

/-!
# File descriptors of the native tools

`Device` is what a copying loop sees of its two descriptors, so that one loop can run against any
behaviour of the operating system. `fileDevice` is a regular file on a disk that does not fail:
a read returns what the file holds at the current position and a write stores all its bytes.
`xseekread` and `xseekwrite` are the positioned calls of `zipadjust.c` on such files. `Ending` is
what the caller of a native tool can observe.
-/

namespace NamelessCenter.Native

open Bytes

/-- `int CHUNK = 256 * 1024`, the buffer size of the native tools. -/
def CHUNK : Nat := 256 * 1024

/-- The read and write calls of a loop that copies between two descriptors. The result `none` is
the return value -1. A write is given the buffer and the byte count it is asked for. `memory` is
what the process has in its memory from the buffer of the last read on, up to where it may not
read. -/
structure Device (σ : Type) where
  read : σ → Nat → Option Bytes × σ
  write : σ → Bytes → UInt64 → Option Nat × σ
  memory : σ → Bytes

/-- A result of `read` or `write` stored in a `size_t`, where -1 becomes the largest value. -/
def sizeT : Option Nat → UInt64
  | some n => UInt64.ofNat n
  | none => UInt64.ofNat (2 ^ 64 - 1)

/-- An input file and an output file with their current positions. -/
structure Files where
  input : Bytes
  inPos : Nat
  output : Bytes
  outPos : Nat

/-- Two regular files on a disk without errors. As no read fails, nothing is taken from memory. -/
def fileDevice : Device Files where
  read s wanted :=
    let data := slice s.input s.inPos wanted
    (some data, { s with inPos := s.inPos + data.length })
  write s buf count :=
    let data := buf.take count.toNat
    (some data.length,
      { s with output := splice s.output s.outPos data, outPos := s.outPos + data.length })
  memory _ := []

/-- `xseekread`: the bytes at `offset`, or `none` when the file ends before the last of them. -/
def xseekread (fd : Bytes) (offset bytes : Nat) : Option Bytes :=
  if (slice fd offset bytes).length = bytes then some (slice fd offset bytes) else none

/-- `xseekwrite` on a disk without errors. -/
def xseekwrite (fd : Bytes) (offset : Nat) (buf : Bytes) : Bytes := splice fd offset buf

/-- How a call that writes a file ends: the return value, whether it has opened the file for
writing, and the file at its path when it returns. -/
structure Ending where
  returns : Bool
  created : Bool
  atOut : Option Bytes
  deriving DecidableEq, Repr

/-- A call that fails after it has created its output leaves no file there. -/
def Ending.CleansUp (e : Ending) : Prop :=
  e.returns = false → e.created = true → e.atOut = none

instance (e : Ending) : Decidable e.CleansUp :=
  inferInstanceAs (Decidable (_ → _ → _))

/-- A read succeeds exactly if the file has all the bytes. -/
theorem xseekread_eq_some {fd buf : Bytes} {offset bytes : Nat} (hbytes : 0 < bytes) :
    xseekread fd offset bytes = some buf ↔
      offset + bytes ≤ fd.length ∧ slice fd offset bytes = buf := by
  unfold xseekread
  rw [length_slice]
  split
  · rename_i h
    rw [Option.some.injEq]
    exact ⟨fun heq => ⟨by omega, heq⟩, fun heq => heq.2⟩
  · rename_i h
    exact ⟨nofun, fun heq => absurd heq.1 (by omega)⟩

/-- A read inside the file gives its bytes. -/
theorem xseekread_of_le {fd : Bytes} {offset bytes : Nat} (h : offset + bytes ≤ fd.length) :
    xseekread fd offset bytes = some (slice fd offset bytes) := by
  rw [xseekread, if_pos (length_slice_of_le h)]

end NamelessCenter.Native

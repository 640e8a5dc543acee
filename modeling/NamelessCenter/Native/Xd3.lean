import NamelessCenter.Native.Posix

/-!
# The decoder interface of xdelta3

The driver of this repository calls the vendored decoder as a state machine. `Xd3` is the part of
its interface that the driver uses, with the arguments of the C functions. `Xd3.Sound` states the
decoder's documented protocol against a meaning `vcdiff source delta` of complete VCDIFF streams: a
decoder that asks for input behind the last byte of a delta has delivered its target, a source block
may be handed over short since an access behind its end is an error, and the closing status is an
error when the input ends inside a header or a window. `Xd3.Exact` says besides that what is
delivered on the way is a part of the target, and that more input is asked for when there is none.
-/

namespace NamelessCenter.Native

open Bytes

/-- The return codes of `xd3_decode_input`. -/
inductive XRet where
  | input
  | output
  | getsrcblk
  | gotheader
  | winstart
  | winfinish
  | error
  deriving DecidableEq, Repr

/-- The decoder. `availInput` and `setBlock` take a buffer and a count as in C, and the count may
exceed the buffer. The result `none` of `setSource` is a call that does not return. `availIn` is the
number of bytes of the input that have not been used. -/
structure Xd3 where
  Stream : Type
  configStream : Int × Stream
  setSource : Stream → Option (Int × Stream)
  setFlush : Stream → Stream
  availInput : Stream → Bytes → UInt32 → Stream
  availIn : Stream → Nat
  decodeInput : Stream → XRet × Stream
  nextOut : Stream → Bytes
  consumeOutput : Stream → Stream
  getblkno : Stream → Nat
  setBlock : Stream → Bytes → UInt32 → Nat → Stream
  closeStream : Stream → Int

/-- What the decoder waits for. -/
inductive XPhase where
  | input
  | run
  | output
  | source
  deriving DecidableEq, Repr

namespace Xd3

/-- The relation `inv st phase fed made` says that the stream `st` was given the input `fed`, has
delivered the output `made` and waits in `phase`. `Protocol` are the laws of the decoder calls for
the source file `source`. -/
structure Protocol (X : Xd3) (vcdiff : Bytes → Bytes → Option Bytes) (source : Bytes)
    (inv : X.Stream → XPhase → Bytes → Bytes → Prop) : Prop where
  start : ∀ st, X.configStream.1 = 0 → X.setSource X.configStream.2 = some (0, st) →
    inv st .input [] []
  flush : ∀ {st fed made}, inv st .input fed made → inv (X.setFlush st) .input fed made
  feed : ∀ {st fed made} (idata : Bytes) (isize : UInt32), inv st .input fed made →
    isize.toNat ≤ idata.length →
    inv (X.availInput st idata isize) .run (fed ++ idata.take isize.toNat) made
  needInput : ∀ {st st' fed made}, inv st .run fed made → X.decodeInput st = (.input, st') →
    inv st' .input fed made
  haveOutput : ∀ {st st' fed made}, inv st .run fed made → X.decodeInput st = (.output, st') →
    inv st' .output fed made
  needSource : ∀ {st st' fed made}, inv st .run fed made → X.decodeInput st = (.getsrcblk, st') →
    inv st' .source fed made
  notice : ∀ {st st' fed made ret}, inv st .run fed made → X.decodeInput st = (ret, st') →
    ret = .gotheader ∨ ret = .winstart ∨ ret = .winfinish → inv st' .run fed made
  consume : ∀ {st fed made}, inv st .output fed made →
    inv (X.consumeOutput st) .run fed (made ++ X.nextOut st)
  block : ∀ {st fed made} (curblk : Bytes) (onblk : UInt32), inv st .source fed made →
    onblk.toNat ≤ curblk.length →
    curblk.take onblk.toNat <+: slice source (CHUNK * X.getblkno st) CHUNK →
    inv (X.setBlock st curblk onblk (X.getblkno st)) .run fed made
  complete : ∀ {st fed made whole}, inv st .input fed made → vcdiff source fed = some whole →
    made = whole
  closed : ∀ {st fed made}, inv st .input fed made → X.closeStream st ≠ 0 →
    vcdiff source fed = none

/-- The decoder follows its protocol for every source file. -/
def Sound (X : Xd3) (vcdiff : Bytes → Bytes → Option Bytes) : Prop :=
  ∀ source, ∃ inv, Protocol X vcdiff source inv

/-- The laws of what happens on the way, while the input is the start of a delta with the target
`whole`: the output so far is the start of the target, and the input is used up before more is asked
for. -/
structure Stepwise (X : Xd3) (vcdiff : Bytes → Bytes → Option Bytes) (source : Bytes)
    (inv : X.Stream → XPhase → Bytes → Bytes → Prop) : Prop
    extends Protocol X vcdiff source inv where
  delivered : ∀ {st phase fed made rest whole}, inv st phase fed made →
    vcdiff source (fed ++ rest) = some whole → made <+: whole
  pending : ∀ {st fed made rest whole}, inv st .output fed made →
    vcdiff source (fed ++ rest) = some whole → made ++ X.nextOut st <+: whole
  usedUp : ∀ {st st' fed made rest whole}, inv st .run fed made →
    X.decodeInput st = (.input, st') → vcdiff source (fed ++ rest) = some whole →
    X.availIn st' = 0

/-- The decoder follows its protocol for every source file, also on the way. -/
def Exact (X : Xd3) (vcdiff : Bytes → Bytes → Option Bytes) : Prop :=
  ∀ source, ∃ inv, Stepwise X vcdiff source inv

/-- A decoder that gives out exactly what a delta means gives out nothing else. -/
theorem Exact.sound {X : Xd3} {vcdiff : Bytes → Bytes → Option Bytes} (h : X.Exact vcdiff) :
    X.Sound vcdiff := fun source =>
  (h source).imp fun _ hinv => hinv.toProtocol

end Xd3

end NamelessCenter.Native

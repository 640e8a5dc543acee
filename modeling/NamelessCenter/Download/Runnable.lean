import NamelessCenter.Lib.Double
import NamelessCenter.Items.UpdateInfo

/-!
# DownloadRunnable.java

The fields of a `DownloadRunnable` and the computations of its methods. Its `run` is spread over
the steps of the pool thread that executes it; `Phase` is the place it has reached. What the methods
only write into notifications is left out.
-/

namespace NamelessCenter.Download

open Items

/-- Runnables are compared by identity. -/
abbrev Ref := Nat

/-- The threads of the pool, in the order in which it creates them. -/
abbrev Thread := Nat

/-! ## DownloadErrorEvent.java -/

/-- The reasons of `DownloadErrorEvent`. -/
def REASON_UNKNOWN : Int := -1

/-- There is no network. -/
def REASON_OFFLINE : Int := 0

/-- Downloads over metered networks are not allowed. -/
def REASON_METERED : Int := 1

/-- The network is metered, which the user is only told. -/
def REASON_METERED_WARN : Int := 2

/-- Downloads while roaming are not allowed. -/
def REASON_ROAMING : Int := 3

/-! ## Fields -/

/-- What `Ion.with(..).load(url)..write(file)` returns. -/
structure ResponseFuture where
  url : String
  file : String
  cancelled : Bool
  deriving DecidableEq, Repr

/-- The progress of a runnable through the executor and through `run`. -/
inductive Phase where
  | unborn
  /-- Waiting in the work queue. -/
  | queued
  /-- Handed to a thread that has not entered `run`. -/
  | taken
  /-- `mThread` is set, the checks of `enqueueDownload` are ahead. -/
  | begun
  /-- The checks have let the download pass, the load is ahead. -/
  | checked
  /-- `fileResponseFuture` is set. -/
  | loaded
  /-- Waiting in `get()`. -/
  | waiting
  | ended
  /-- Refused by the executor. -/
  | rejected
  /-- Taken out of the work queue by `shutdownNow`. -/
  | dropped
  deriving DecidableEq, Repr

/-- A runnable with its fields, and how far its run has come. -/
structure DownloadRunnable where
  id : String
  updateInfo : UpdateInfo
  mThread : Option Thread
  fileResponseFuture : Option ResponseFuture
  actualPercentage : Int
  oldPercentage : Int
  phase : Phase
  deriving DecidableEq, Repr

/-- The object after its constructor; `unborn` objects have not been constructed. -/
def DownloadRunnable.new (id : String) (info : UpdateInfo) (phase : Phase) : DownloadRunnable where
  id := id
  updateInfo := info
  mThread := none
  fileResponseFuture := none
  actualPercentage := 0
  oldPercentage := -1
  phase := phase

/-- A runnable whose future, if it has one, has been cancelled. -/
def DownloadRunnable.cancelled (o : DownloadRunnable) : DownloadRunnable :=
  { o with fileResponseFuture := o.fileResponseFuture.map fun f => { f with cancelled := true } }

/-- A runnable is cancelled once. -/
@[simp] theorem DownloadRunnable.cancelled_cancelled (o : DownloadRunnable) :
    o.cancelled.cancelled = o.cancelled := by
  cases hfuture : o.fileResponseFuture <;> simp [DownloadRunnable.cancelled, hfuture]

/-! ## enqueueDownload -/

/-- The state of the network and the stored preferences that the checks read. -/
structure Conditions where
  isOnline : Bool
  isMetered : Bool
  isRoaming : Bool
  PREF_UPDATE_METERED : Option Bool
  PREF_UPDATE_METERED_SKIP_WARNING : Option Bool
  PREF_UPDATE_ROAMING : Option Bool
  deriving DecidableEq, Repr

/-- `PreferenceHelper.getBoolean(name, default)` on the stored value. -/
def getBoolean (stored : Option Bool) (default : Bool) : Bool := stored.getD default

/-- The checks of `enqueueDownload`: the reasons passed to `postError`, in order, and whether the
download goes on to the load. -/
def enqueueDownload (c : Conditions) : List Int × Bool :=
  if !c.isOnline then ([REASON_OFFLINE], false)
  else if c.isMetered && !getBoolean c.PREF_UPDATE_METERED true then ([REASON_METERED], false)
  else
    -- the warning does not end the method
    let warning :=
      if c.isMetered && !getBoolean c.PREF_UPDATE_METERED_SKIP_WARNING false then
        [REASON_METERED_WARN]
      else []
    if c.isRoaming && !getBoolean c.PREF_UPDATE_ROAMING false then
      (warning ++ [REASON_ROAMING], false)
    else (warning, true)

/-- Unless the warning is posted, exactly the refused downloads post an error, and they post one. -/
theorem enqueue_download_of_not_warned {c : Conditions}
    (h : REASON_METERED_WARN ∉ (enqueueDownload c).1) :
    enqueueDownload c = ([], true) ∨ ∃ reason, enqueueDownload c = ([reason], false) := by
  unfold enqueueDownload at h ⊢
  split
  · exact .inr ⟨_, rfl⟩
  · rename_i honline
    split
    · exact .inr ⟨_, rfl⟩
    · rename_i hmetered
      rw [if_neg honline, if_neg hmetered] at h
      cases hwarn : c.isMetered && !getBoolean c.PREF_UPDATE_METERED_SKIP_WARNING false with
      | true =>
          simp only [hwarn, if_true] at h
          split at h <;> simp at h
      | false =>
          simp only [Bool.false_eq_true, if_false, List.nil_append]
          split
          · exact .inr ⟨_, rfl⟩
          · exact .inl rfl

/-! ## onProgress -/

/-- `(int) (downloaded * 100.0 / total + 0.5)`. -/
def percentage (downloaded total : Int) : Int :=
  let hundredfold := Double.ofRat (Double.ofRat downloaded * 100)
  if total = 0 then
    -- the quotient is NaN or infinite
    if downloaded = 0 then 0 else if 0 < downloaded then 2 ^ 31 - 1 else -2 ^ 31
  else Double.toInt (Double.ofRat (Double.ofRat (hundredfold / Double.ofRat total) + 1 / 2))

/-- The progress of a download that does not deliver more than was announced stays below 101. -/
theorem percentage_lt_of_le {downloaded total : Int} (hpos : 0 < total) (hdown : 0 ≤ downloaded)
    (hle : downloaded ≤ total) : percentage downloaded total < 101 := by
  have htotal : (0 : ℚ) < total := by exact_mod_cast hpos
  have hdownloaded : (0 : ℚ) ≤ downloaded := by exact_mod_cast hdown
  have hratio : (downloaded : ℚ) ≤ total := by exact_mod_cast hle
  obtain ⟨-, hd⟩ := Double.of_rat_bounds hdownloaded
  obtain ⟨ht, -⟩ := Double.of_rat_bounds htotal.le
  have hd' := Double.of_rat_nonneg hdownloaded
  have ht' : 0 < Double.ofRat (total : ℚ) := lt_of_lt_of_le (by positivity) ht
  have hhundred : 0 ≤ Double.ofRat (downloaded : ℚ) * 100 := by positivity
  obtain ⟨-, hh⟩ := Double.of_rat_bounds hhundred
  have hh' := Double.of_rat_nonneg hhundred
  -- three roundings so far, against one of the divisor
  have hquotient : Double.ofRat (Double.ofRat (downloaded : ℚ) * 100) / Double.ofRat (total : ℚ) ≤
      1001 / 10 := by
    rw [div_le_iff₀ ht']
    nlinarith
  have hquotient' := div_nonneg hh' ht'.le
  obtain ⟨-, hq⟩ := Double.of_rat_bounds hquotient'
  have hq' := Double.of_rat_nonneg hquotient'
  have hsum : 0 ≤ Double.ofRat (Double.ofRat (Double.ofRat (downloaded : ℚ) * 100) /
      Double.ofRat (total : ℚ)) + 1 / 2 := by positivity
  obtain ⟨-, hs⟩ := Double.of_rat_bounds hsum
  simp only [percentage, if_neg hpos.ne']
  refine Double.to_int_lt (Double.of_rat_nonneg hsum) ?_
  push_cast
  nlinarith

end NamelessCenter.Download

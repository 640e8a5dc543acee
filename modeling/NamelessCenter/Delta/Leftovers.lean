import NamelessCenter.Zip.Faults

/-!
# The output files of failed calls

`dedeltaAt` is `dedelta` with the path of its output: the `unlink` and the `open` in front of the
driver, and the `unlink` at the end, which only a call that skips the driver reaches. So a failing
call cleans up exactly if nothing fails between the `open` of the output and the end of the decode
loop (`dedelta_cleans_up_iff`). `failed_calls_clean_up_iff` says this of both native tools.
-/

namespace NamelessCenter.Delta

open Bytes Native

/-- The results of the calls on paths, with the file at the output path when `dedelta` is called.
A result `none` of an `open` is -1. -/
structure Paths where
  before : Option Bytes
  fsource : Option Nat
  fdelta : Option Nat
  unlinked : Bool
  fout : Option Nat
  cleaned : Bool

section Paths

variable (X : Xd3) (paths : Paths) (os : Os) (source delta : Bytes)

/-- `dedelta`, where every loop gets `fuel` rounds. The driver writes over the file that `open`
found, if the first `unlink` has failed. -/
def dedeltaAt (fuel : Nat) : Option Ending :=
  let atOut := if paths.unlinked then none else paths.before
  match paths.fout with
  | none => some ⟨false, false, if paths.cleaned then none else atOut⟩
  | some _ =>
      let opened := atOut.getD []
      if paths.fsource.isSome && paths.fdelta.isSome then
        (dedelta X { os with opened := true } source delta fuel).map fun o =>
          ⟨o.returns, true, o.output.map (splice opened 0)⟩
      else some ⟨false, true, if paths.cleaned then none else some opened⟩

/-! ## The steps of the driver -/

/-- The driver stops before the decode loop. -/
inductive SetupFails : Prop where
  | bsource (h : os.bsource = none)
  | bdelta (h : os.bdelta = none)
  | configStream (h : X.configStream.1 ≠ 0)
  | setSource {ret : Int} {stream : X.Stream}
      (h : X.setSource X.configStream.2 = some (ret, stream)) (hret : ret ≠ 0)

/-- The pass that starts in `s` fails: the decoder rejects its input, a write is not complete, or
the position of a source block cannot be reached. -/
inductive PassFails (s : State X) : Prop where
  | decode {stream : X.Stream} (h : X.decodeInput s.stream = (.error, stream))
  | write {stream : X.Stream} (h : X.decodeInput s.stream = (.output, stream))
      (hout : (X.nextOut stream).length ≠ 0)
      (hwrite : writeResult (os.answer s.calls.length) (X.nextOut stream).length ≠
        some (X.nextOut stream).length)
  | seek {stream : X.Stream} (h : X.decodeInput s.stream = (.getsrcblk, stream))
      (hseek : os.answer s.calls.length = none)

/-- The states at the label `process` in a run of the driver from `init`, with the flag of the end
of the delta. -/
inductive Reaches (init : State X) : Bool → State X → Prop where
  | start : Reaches init (readChunk X os delta init).1 (readChunk X os delta init).2
  | again {eof : Bool} {s s' : State X} : Reaches init eof s →
      round X os source s = .again s' → Reaches init eof s'
  | next {s s' : State X} : Reaches init false s → round X os source s = .needInput s' →
      Reaches init (readChunk X os delta s').1 (readChunk X os delta s').2

/-- The driver gets through its setup, and no pass of its run fails. -/
def NothingFails : Prop :=
  ¬ SetupFails X os ∧
    ∀ bsource bdelta stream, os.bsource = some bsource → os.bdelta = some bdelta →
      X.setSource X.configStream.2 = some (0, stream) → ∀ eof s,
        Reaches X os source delta ⟨stream, bsource, bdelta, 0, [], []⟩ eof s → ¬ PassFails X os s

end Paths

section Runs

variable {X : Xd3} {os : Os} {source delta : Bytes}

/-- A pass ends with an error exactly if it fails. -/
theorem round_failed_iff (source : Bytes) {s : State X} :
    (∃ message s', round X os source s = .failed message s') ↔ PassFails X os s := by
  rcases hcall : X.decodeInput s.stream with ⟨ret, stream⟩
  unfold round
  simp only [hcall]
  constructor
  · intro h
    obtain ⟨message, s', h⟩ := h
    cases ret with
    | output =>
        simp only at h
        split at h
        · cases h
        · rename_i hout
          split at h
          · cases h
          · rename_i hwrite
            exact .write hcall hout hwrite
    | getsrcblk =>
        simp only at h
        split at h
        · rename_i hseek
          exact .seek hcall hseek
        · cases h
    | error => exact .decode hcall
    | input => cases h
    | gotheader => cases h
    | winstart => cases h
    | winfinish => cases h
  · intro h
    cases h with
    | decode h =>
        rw [hcall] at h
        cases h
        exact ⟨_, _, rfl⟩
    | write h hout hwrite =>
        rw [hcall] at h
        cases h
        simp only [if_neg hout, if_neg hwrite]
        exact ⟨_, _, rfl⟩
    | seek h hseek =>
        rw [hcall] at h
        cases h
        simp only [hseek]
        exact ⟨_, _, rfl⟩

/-! ## Rounds -/

/-- More rounds do not change how a chunk ends. -/
theorem chunk_mono {fuel fuel' : Nat} {s : State X}
    {r : Except (String × State X) (State X)} (hle : fuel ≤ fuel')
    (h : chunk X os source fuel s = some r) : chunk X os source fuel' s = some r := by
  induction fuel generalizing fuel' s with
  | zero => cases h
  | succ fuel ih =>
      obtain ⟨fuel', rfl⟩ : ∃ m, fuel' = m + 1 := ⟨fuel' - 1, by omega⟩
      unfold chunk at h ⊢
      cases hround : round X os source s with
      | again next =>
          simp only [hround] at h ⊢
          exact ih (by omega) h
      | needInput next => simpa only [hround] using h
      | failed message next => simpa only [hround] using h

/-- Nor do they change how the loop over the chunks ends. -/
theorem chunks_mono {inner inner' fuel fuel' : Nat} {s : State X}
    {r : Except (String × State X) (State X)} (hinner : inner ≤ inner') (hle : fuel ≤ fuel')
    (h : chunks X os source delta inner fuel s = some r) :
    chunks X os source delta inner' fuel' s = some r := by
  induction fuel generalizing fuel' s with
  | zero => cases h
  | succ fuel ih =>
      obtain ⟨fuel', rfl⟩ : ∃ m, fuel' = m + 1 := ⟨fuel' - 1, by omega⟩
      unfold chunks at h ⊢
      simp only at h ⊢
      cases hchunk : chunk X os source inner (readChunk X os delta s).2 with
      | none => simp [hchunk] at h
      | some result =>
          rw [chunk_mono hinner hchunk]
          cases result with
          | error failure => simpa only [hchunk] using h
          | ok next =>
              simp only [hchunk] at h ⊢
              split at h
              · rename_i heof
                rw [if_pos heof]
                exact h
              · rename_i heof
                rw [if_neg heof]
                exact ih (by omega) h

/-! ## Runs -/

/-- A chunk ends at some pass of the run: with an error if that pass fails, and otherwise because it
needs input. -/
theorem chunk_ends {init s : State X} {eof : Bool} {fuel : Nat}
    {r : Except (String × State X) (State X)} (hs : Reaches X os source delta init eof s)
    (h : chunk X os source fuel s = some r) :
    ∃ t, Reaches X os source delta init eof t ∧
      ((∃ failure, r = .error failure) → PassFails X os t) ∧
      ∀ s', r = .ok s' → round X os source t = .needInput s' := by
  induction fuel generalizing s with
  | zero => cases h
  | succ fuel ih =>
      unfold chunk at h
      cases hround : round X os source s with
      | again next =>
          simp only [hround] at h
          exact ih (hs.again hround) h
      | needInput next =>
          simp only [hround, Option.some.injEq] at h
          subst h
          refine ⟨s, hs, fun hfailure => ?_, fun s' heq => ?_⟩
          · obtain ⟨failure, hfailure⟩ := hfailure
            cases hfailure
          · cases heq
            exact hround
      | failed message next =>
          simp only [hround, Option.some.injEq] at h
          subst h
          refine ⟨s, hs, fun hfailure => ?_, fun s' heq => ?_⟩
          · exact (round_failed_iff source).1 ⟨message, next, hround⟩
          · cases heq

/-- A run that ends with an error has a pass that fails. -/
theorem chunks_error {init s : State X} {inner fuel : Nat} {failure : String × State X}
    (hs : Reaches X os source delta init (readChunk X os delta s).1 (readChunk X os delta s).2)
    (h : chunks X os source delta inner fuel s = some (.error failure)) :
    ∃ eof t, Reaches X os source delta init eof t ∧ PassFails X os t := by
  induction fuel generalizing s with
  | zero => cases h
  | succ fuel ih =>
      unfold chunks at h
      simp only at h
      cases hchunk : chunk X os source inner (readChunk X os delta s).2 with
      | none => simp [hchunk] at h
      | some result =>
          obtain ⟨t, ht, hfails, hlast⟩ := chunk_ends hs hchunk
          cases result with
          | error failure' => exact ⟨_, t, ht, hfails ⟨failure', rfl⟩⟩
          | ok next =>
              simp only [hchunk] at h
              split at h
              · cases h
              · rename_i heof
                rw [Bool.not_eq_true] at heof
                rw [heof] at ht
                exact ih (ht.next (hlast next rfl)) h

/-- From the state `s` at `process`, the run ends with an error after at most `fuel` rounds. -/
def EndsBadly (X : Xd3) (os : Os) (source delta : Bytes) (fuel : Nat) (eof : Bool)
    (s : State X) : Prop :=
  ∃ failure, chunk X os source fuel s = some (.error failure) ∨
    eof = false ∧ ∃ s', chunk X os source fuel s = some (.ok s') ∧
      chunks X os source delta fuel fuel s' = some (.error failure)

/-- If the chunk that was read ends badly, so does the loop. -/
theorem chunks_of_ends_badly {fuel : Nat} {s : State X}
    (h : EndsBadly X os source delta fuel (readChunk X os delta s).1 (readChunk X os delta s).2) :
    ∃ failure, chunks X os source delta (fuel + 1) (fuel + 1) s = some (.error failure) := by
  obtain ⟨failure, h⟩ := h
  refine ⟨failure, chunks_mono (Nat.le_succ fuel) (Nat.le_refl _) ?_⟩
  unfold chunks
  simp only
  rcases h with hchunk | ⟨heof, s', hchunk, hrest⟩
  · rw [hchunk]
  · rw [hchunk, heof]
    exact hrest

/-- A bad end is carried back along the run, with one more round for each of its passes. -/
theorem chunks_of_reaches {init s : State X} {eof : Bool} (fuel : Nat)
    (hs : Reaches X os source delta init eof s) (h : EndsBadly X os source delta fuel eof s) :
    ∃ fuel failure, chunks X os source delta fuel fuel init = some (.error failure) := by
  induction hs generalizing fuel with
  | start => exact ⟨fuel + 1, chunks_of_ends_badly h⟩
  | @again eof s s' hs hround ih =>
      obtain ⟨failure, h⟩ := h
      have hchunk : chunk X os source (fuel + 1) s = chunk X os source fuel s' := by
        rw [chunk, hround]
      refine ih (fuel + 1) ⟨failure, ?_⟩
      rw [hchunk]
      rcases h with h | ⟨heof, t, ht, hrest⟩
      · exact .inl h
      · exact .inr ⟨heof, t, ht, chunks_mono (Nat.le_succ fuel) (Nat.le_succ fuel) hrest⟩
  | @next s s' hs hround ih =>
      have hchunk : chunk X os source (fuel + 1) s = some (.ok s') := by
        rw [chunk, hround]
      obtain ⟨failure, hrest⟩ := chunks_of_ends_badly h
      exact ih (fuel + 1) ⟨failure, .inr ⟨rfl, s', hchunk, hrest⟩⟩

/-- The decode loop ends with an error, given enough rounds, exactly if a pass of its run fails. -/
theorem chunks_error_iff {init : State X} :
    (∃ fuel failure, chunks X os source delta fuel fuel init = some (.error failure)) ↔
      ∃ eof s, Reaches X os source delta init eof s ∧ PassFails X os s := by
  constructor
  · intro h
    obtain ⟨fuel, failure, h⟩ := h
    exact chunks_error .start h
  · intro h
    obtain ⟨eof, s, hs, hfails⟩ := h
    obtain ⟨message, next, hround⟩ := (round_failed_iff source).2 hfails
    have hchunk : chunk X os source 1 s = some (.error (message, next)) := by
      rw [chunk, hround]
    exact chunks_of_reaches 1 hs ⟨(message, next), .inl hchunk⟩

/-- A setup that fails ends the call at once. -/
theorem dedelta_of_setup_fails (source delta : Bytes) (hopened : os.opened = true)
    (h : SetupFails X os) (fuel : Nat) :
    ∃ message, dedelta X os source delta fuel = some ⟨false, some [], [], none, message⟩ := by
  unfold dedelta
  rw [if_neg (by simp [hopened])]
  cases hsource : os.bsource with
  | none => exact ⟨_, rfl⟩
  | some bsource =>
      cases hdelta : os.bdelta with
      | none => exact ⟨_, rfl⟩
      | some bdelta =>
          by_cases hconfig : X.configStream.1 = 0
          · obtain ⟨ret, stream, hset, hret⟩ : ∃ ret stream,
                X.setSource X.configStream.2 = some (ret, stream) ∧ ret ≠ 0 := by
              cases h with
              | bsource h => simp [hsource] at h
              | bdelta h => simp [hdelta] at h
              | configStream h => exact absurd hconfig h
              | setSource h hret => exact ⟨_, _, h, hret⟩
            simp only [hconfig, hset, ne_eq, not_true_eq_false, if_false, if_pos hret]
            exact ⟨_, rfl⟩
          · simp only [ne_eq, hconfig, not_false_eq_true, if_true]
            exact ⟨_, rfl⟩

/-- A setup that does not return keeps the call from returning. -/
theorem dedelta_of_set_source_none (source delta : Bytes) (hopened : os.opened = true)
    (h : ¬ SetupFails X os) (hset : X.setSource X.configStream.2 = none) (fuel : Nat) :
    dedelta X os source delta fuel = none := by
  obtain ⟨bsource, hsource⟩ := Option.ne_none_iff_exists'.1 fun hnone => h (.bsource hnone)
  obtain ⟨bdelta, hdelta⟩ := Option.ne_none_iff_exists'.1 fun hnone => h (.bdelta hnone)
  have hconfig : X.configStream.1 = 0 := not_not.1 fun hne => h (.configStream hne)
  unfold dedelta
  simp [hopened, hsource, hdelta, hconfig, hset]

/-- Behind the setup the call ends as the decode loop does. -/
theorem dedelta_of_setup (source delta : Bytes) (hopened : os.opened = true)
    (h : ¬ SetupFails X os) {ret : Int} {stream : X.Stream}
    (hset : X.setSource X.configStream.2 = some (ret, stream)) :
    ret = 0 ∧ ∃ bsource bdelta, os.bsource = some bsource ∧ os.bdelta = some bdelta ∧
      ∀ fuel, dedelta X os source delta fuel =
        (chunks X os source delta fuel fuel ⟨stream, bsource, bdelta, 0, [], []⟩).map fun
          | .error (message, s) => ⟨false, some s.output, s.calls, none, message⟩
          | .ok s => ⟨true, some s.output, s.calls, some (X.closeStream s.stream), ""⟩ := by
  obtain ⟨bsource, hsource⟩ := Option.ne_none_iff_exists'.1 fun hnone => h (.bsource hnone)
  obtain ⟨bdelta, hdelta⟩ := Option.ne_none_iff_exists'.1 fun hnone => h (.bdelta hnone)
  have hconfig : X.configStream.1 = 0 := not_not.1 fun hne => h (.configStream hne)
  have hret : ret = 0 := not_not.1 fun hne => h (.setSource hset hne)
  refine ⟨hret, bsource, bdelta, hsource, hdelta, fun fuel => ?_⟩
  unfold dedelta
  simp only [hopened, hsource, hdelta, hconfig, hset, hret, ne_eq, not_true_eq_false, if_false,
    Bool.true_eq_false]
  rcases chunks X os source delta fuel fuel ⟨stream, bsource, bdelta, 0, [], []⟩ with _ | ⟨_ | _⟩
  · rfl
  · rfl
  · rfl

/-- The driver returns 0, given enough rounds, exactly if something fails in it. -/
theorem dedelta_returns0_iff (hopened : os.opened = true) :
    (∃ fuel o, dedelta X os source delta fuel = some o ∧ o.returns = false) ↔
      ¬ NothingFails X os source delta := by
  by_cases hsetup : SetupFails X os
  · obtain ⟨message, hcall⟩ := dedelta_of_setup_fails source delta hopened hsetup 0
    exact iff_of_true ⟨0, _, hcall, rfl⟩ fun h => h.1 hsetup
  · cases hset : X.setSource X.configStream.2 with
    | none =>
        have hcall := dedelta_of_set_source_none source delta hopened hsetup hset
        refine iff_of_false (fun h => ?_) fun h => h ⟨hsetup, fun _ _ stream _ _ hstream => ?_⟩
        · obtain ⟨fuel, o, ho, -⟩ := h
          rw [hcall] at ho
          cases ho
        · rw [hset] at hstream
          cases hstream
    | some result =>
        obtain ⟨ret, stream⟩ := result
        obtain ⟨rfl, bsource, bdelta, hsource, hdelta, hcall⟩ :=
          dedelta_of_setup source delta hopened hsetup hset
        have hfails : ¬ NothingFails X os source delta ↔ ∃ eof s,
            Reaches X os source delta ⟨stream, bsource, bdelta, 0, [], []⟩ eof s ∧
              PassFails X os s := by
          have hpasses : NothingFails X os source delta ↔ ∀ eof s,
              Reaches X os source delta ⟨stream, bsource, bdelta, 0, [], []⟩ eof s →
                ¬ PassFails X os s :=
            ⟨fun h => h.2 bsource bdelta stream hsource hdelta hset,
              fun h => ⟨hsetup, fun b d st hb hd hst => by
                cases hsource.symm.trans hb
                cases hdelta.symm.trans hd
                cases hset.symm.trans hst
                exact h⟩⟩
          simp only [hpasses, not_forall, not_not, exists_prop]
        rw [hfails, ← chunks_error_iff]
        constructor
        · intro h
          obtain ⟨fuel, o, ho, hzero⟩ := h
          rw [hcall, Option.map_eq_some_iff] at ho
          obtain ⟨r, hr, rfl⟩ := ho
          cases r with
          | error failure => exact ⟨fuel, failure, hr⟩
          | ok s => cases hzero
        · intro h
          obtain ⟨fuel, failure, h⟩ := h
          exact ⟨fuel, _, by rw [hcall, h]; rfl, rfl⟩

/-- However the driver ends, it leaves its output file. -/
theorem dedelta_keeps (hopened : os.opened = true) {fuel : Nat} {o : Outcome}
    (h : dedelta X os source delta fuel = some o) : ∃ out, o.output = some out := by
  by_cases hsetup : SetupFails X os
  · obtain ⟨message, hcall⟩ := dedelta_of_setup_fails source delta hopened hsetup fuel
    rw [hcall, Option.some.injEq] at h
    exact ⟨[], by rw [← h]⟩
  · cases hset : X.setSource X.configStream.2 with
    | none =>
        rw [dedelta_of_set_source_none source delta hopened hsetup hset] at h
        cases h
    | some result =>
        obtain ⟨-, bsource, bdelta, -, -, hcall⟩ :=
          dedelta_of_setup source delta hopened hsetup hset
        rw [hcall, Option.map_eq_some_iff] at h
        obtain ⟨r, hr, rfl⟩ := h
        cases r with
        | error failure => exact ⟨_, rfl⟩
        | ok s => exact ⟨_, rfl⟩

end Runs

/-! ## What is left at the output path -/

section Leftovers

variable {X : Xd3} {paths : Paths} {os : Os} {source delta : Bytes}

/-- A call that creates its output cleans up exactly if the other files are open and nothing fails
in the driver, or one of them is not and the last `unlink` succeeds. -/
theorem dedelta_cleans_up_iff :
    (∀ fuel e, dedeltaAt X paths os source delta fuel = some e → e.CleansUp) ↔
      (paths.fout ≠ none →
        if paths.fsource ≠ none ∧ paths.fdelta ≠ none then
          NothingFails X { os with opened := true } source delta
        else paths.cleaned = true) := by
  unfold dedeltaAt
  cases hout : paths.fout with
  | none =>
      refine iff_of_true (fun fuel e h => ?_) fun h => absurd rfl h
      cases h
      exact fun _ => nofun
  | some fd =>
      have hboth : (paths.fsource.isSome && paths.fdelta.isSome) = true ↔
          paths.fsource ≠ none ∧ paths.fdelta ≠ none := by
        rw [Bool.and_eq_true, Option.isSome_iff_ne_none, Option.isSome_iff_ne_none]
      simp only [ne_eq (some fd), reduceCtorEq, not_false_eq_true, forall_true_left]
      by_cases hopened : paths.fsource ≠ none ∧ paths.fdelta ≠ none
      · have hdriver := hboth.2 hopened
        rw [if_pos hopened]
        simp only [hdriver, if_true]
        have hzero : (∃ fuel o, dedelta X { os with opened := true } source delta fuel = some o ∧
            o.returns = false) ↔ ¬ NothingFails X { os with opened := true } source delta :=
          dedelta_returns0_iff rfl
        constructor
        · intro h
          by_contra hfails
          obtain ⟨fuel, o, ho, hreturns⟩ := hzero.2 hfails
          obtain ⟨out, hout'⟩ := dedelta_keeps rfl ho
          have hclean := h fuel _ (by rw [ho]; rfl) hreturns rfl
          simp [hout'] at hclean
        · intro hfine fuel e he hreturns
          rw [Option.map_eq_some_iff] at he
          obtain ⟨o, ho, rfl⟩ := he
          exact absurd hfine (hzero.1 ⟨fuel, o, ho, hreturns⟩)
      · have hskip := Bool.eq_false_of_not_eq_true fun h => hopened (hboth.1 h)
        rw [if_neg hopened]
        simp only [hskip, Bool.false_eq_true, if_false]
        cases hcleaned : paths.cleaned with
        | false =>
            refine iff_of_false (fun h => ?_) nofun
            cases h 0 _ rfl rfl rfl
        | true =>
            refine iff_of_true (fun fuel e h => ?_) rfl
            cases h
            exact fun _ _ => rfl

/-- When both calls of `unlink` succeed, this is `dedelta` on a new output file. -/
theorem dedelta_at_eq (hunlinked : paths.unlinked = true) (hcleaned : paths.cleaned = true)
    (fuel : Nat) :
    dedeltaAt X paths os source delta fuel =
      (dedelta X
        { os with opened := paths.fsource.isSome && paths.fdelta.isSome && paths.fout.isSome }
        source delta fuel).map fun o => ⟨o.returns, paths.fout.isSome, o.output⟩ := by
  unfold dedeltaAt
  simp only [hunlinked, hcleaned, if_true, Option.getD_none]
  have hnew : splice [] 0 = id := funext fun ys => splice_at_end rfl
  cases hout : paths.fout with
  | none => simp [dedelta]
  | some fd =>
      by_cases hopened : (paths.fsource.isSome && paths.fdelta.isSome) = true
      · simp [hopened, hnew]
      · rw [Bool.not_eq_true] at hopened
        simp [hopened, dedelta]

end Leftovers

/-! ## Both tools -/

section Tools

variable (X : Xd3) (paths : Paths) (os : Os) (source delta : Bytes) (Z : Inflater)
  (answers : Zip.Answers) (before : Option Bytes) (fin : Bytes) (decompress : Bool)

/-- A call of `dedelta` or `zipadjust` that returns 0 after it has created its output leaves no
file, for any number of rounds of its loops, exactly if: for `dedelta`, nothing fails in the driver,
or the driver is skipped and the last `unlink` succeeds; for `zipadjust`, the descriptor of the
output is not 0 and no step behind the `open` fails. -/
theorem failed_calls_clean_up_iff :
    ((∀ fuel e, dedeltaAt X paths os source delta fuel = some e → e.CleansUp) ↔
      (paths.fout ≠ none →
        if paths.fsource ≠ none ∧ paths.fdelta ≠ none then
          NothingFails X { os with opened := true } source delta
        else paths.cleaned = true)) ∧
    ((∀ fuel e, Zip.zipadjustOn answers Z fuel decompress before fin = .ok e → e.CleansUp) ↔
      ∀ fuel fd footer centralIn s,
        Zip.prepare answers before fin = .created fd footer centralIn s →
        fd ≠ 0 ∧ Zip.NothingFails answers Z fuel decompress ⟨centralIn, 0, [], 0, s⟩) :=
  ⟨dedelta_cleans_up_iff, forall_congr' fun _ => Zip.zipadjust_cleans_up_iff⟩

end Tools

/-- A corrupt delta and a corrupt archive, with every call to the operating system answered in full:
both tools return 0, the one with an empty output file and the other with a header and a name. -/
theorem corrupt_inputs_leave_output :
    let m : Zip.Member := ⟨[0x61], [], [], 8, 0xd8932aac, 2, [0]⟩
    let half : Bytes :=
      { m.localHeader with compressionMethod := 0, sizeCompressed := 2 }.encode ++ [0x61]
    (dedeltaAt plainDecoder ⟨none, some 3, some 4, true, some 5, true⟩ plainOs [] [0, 0, 0, 0] 2 =
        some ⟨false, true, some []⟩ ∧
      ¬ Ending.CleansUp ⟨false, true, some []⟩) ∧
    Zip.zipadjustOn ⟨fun _ => some CHUNK, fun _ => []⟩ (.ofDecoder storedBlock) 3 true none
        m.archive = .ok ⟨false, true, some half⟩ ∧
      ¬ Ending.CleansUp ⟨false, true, some half⟩ := by
  refine ⟨⟨?_, ?_⟩, ?_, ?_⟩
  · decide +kernel
  · decide
  · decide +kernel
  · exact fun h => nomatch h rfl rfl

end NamelessCenter.Delta

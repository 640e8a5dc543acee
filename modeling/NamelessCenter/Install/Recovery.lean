import NamelessCenter.Lib.OutputStream
import NamelessCenter.Install.UpdateHelper

/-!
# The scripts in the recovery directory

`triggerUpdate` writes one or two scripts and reboots. Each step may fail: the shell command, and
the opening, a write or the closing of a script. An exception ends the call, with the scripts as
they are by then, and a script of the recovery that is not asked for is left alone.
`trigger_update_clean_iff` says when the directory holds what it should after the call.
-/

namespace NamelessCenter.Install

open Bytes

/-- The scripts by name. -/
inductive Script where
  | extendedcommand
  | openrecoveryscript
  deriving DecidableEq, Repr

namespace Scripts

/-- The script of this name, if it was written. -/
def get (s : Scripts) : Script → Option Bytes
  | .extendedcommand => s.extendedcommand
  | .openrecoveryscript => s.openrecoveryscript

/-- Replace the script of this name. -/
def set (s : Scripts) (name : Script) (file : Option Bytes) : Scripts :=
  match name with
  | .extendedcommand => { s with extendedcommand := file }
  | .openrecoveryscript => { s with openrecoveryscript := file }

/-- The script that was replaced last is read. -/
@[simp] theorem get_set_self (s : Scripts) (name : Script) (file : Option Bytes) :
    (s.set name file).get name = file := by
  cases name <;> rfl

/-- The other one stays. -/
theorem get_set_of_ne (s : Scripts) {name other : Script} (file : Option Bytes)
    (h : other ≠ name) : (s.set name file).get other = s.get other := by
  cases name <;> cases other <;> first | exact (h rfl).elim | rfl

/-- The two scripts are all there is. -/
theorem ext_get {s t : Scripts} (h : ∀ name, s.get name = t.get name) : s = t := by
  cases s with
  | mk extendedcommand openrecoveryscript =>
      cases t with
      | mk extendedcommand' openrecoveryscript' =>
          cases (h .extendedcommand : extendedcommand = extendedcommand')
          cases (h .openrecoveryscript : openrecoveryscript = openrecoveryscript')
          rfl

end Scripts

/-- The directory `/cache/recovery` during a call. -/
structure Recovery where
  scripts : Scripts
  /-- The scripts that the call has opened for writing. -/
  written : List Script
  deriving DecidableEq, Repr

/-- The failures that a call meets. -/
structure RecoveryFaults where
  /-- `runShellCommands` throws. -/
  shell : Bool
  /-- The directory may be missing when a script is opened, as nobody waits for the shell. -/
  script : Script → Faults

/-- A script of these strings. The second case of the result is an `IOException`. -/
def createScript (faults : RecoveryFaults) (name : Script) (strings : List String)
    (r : Recovery) : Except Recovery Recovery :=
  let (file, completed) :=
    (faults.script name).rewrite (strings.map writeString) (r.scripts.get name)
  if (faults.script name).opening then .error r
  else
    let r : Recovery := ⟨r.scripts.set name file, name :: r.written⟩
    if completed then .ok r else .error r

namespace Device

variable (d : Device) (flashType : Int) (updateFileName : String)

/-- The strings of a script. -/
def strings : Script → List String
  | .extendedcommand =>
      createCwmScript d.root (d.root ++ updateFileName) d.getFlashAfterUpdateZIPs
  | .openrecoveryscript =>
      createOpenRecoveryScript d.root (d.root ++ updateFileName) d.getFlashAfterUpdateZIPs

/-- `triggerUpdate(updateFileName)` on a directory with these scripts, up to the reboot. -/
def triggerUpdateOn (faults : RecoveryFaults) (before : Scripts) : Except Recovery Recovery :=
  let r : Recovery := ⟨before, []⟩
  let createCwm := createScript faults .extendedcommand (d.strings updateFileName .extendedcommand)
  let createOpenRecovery :=
    createScript faults .openrecoveryscript (d.strings updateFileName .openrecoveryscript)
  if faults.shell then .error r
  else if flashType = RECOVERY_TYPE_CWM then createCwm r
  else if flashType = RECOVERY_TYPE_OPEN then createOpenRecovery r
  else
    match createCwm r with
    | .error r => .error r
    | .ok r => createOpenRecovery r

/-- After an exception, none of the scripts that the call has opened is there; and the recovery is
started with the scripts of its type for this update, and no others. -/
def Clean : Except Recovery Recovery → Prop
  | .error r => ∀ name ∈ r.written, r.scripts.get name = none
  | .ok r => r.scripts = d.triggerUpdate flashType updateFileName

/-- The scripts of a type, in the order in which they are written. -/
def scriptsOf (flashType : Int) : List Script :=
  if flashType = RECOVERY_TYPE_CWM then [.extendedcommand]
  else if flashType = RECOVERY_TYPE_OPEN then [.openrecoveryscript]
  else [.extendedcommand, .openrecoveryscript]

/-- Nothing fails behind the opening of the first script, and without a failure there is no script
of another type. -/
def Harmless (faults : RecoveryFaults) (before : Scripts) : Prop :=
  faults.shell ∨ (∃ name ∈ (scriptsOf flashType).head?, (faults.script name).opening) ∨
    (∀ name ∈ scriptsOf flashType,
        (faults.script name).NoneIn (d.strings updateFileName name).length) ∧
      ∀ name ∉ scriptsOf flashType, before.get name = none

end Device

/-! ## A script -/

section Create

variable {faults : RecoveryFaults} {name : Script} {strings : List String} {r r' : Recovery}

/-- What can happen to a script: it is not opened, it is complete, or the call has opened it and
fails. -/
theorem create_script_cases (faults : RecoveryFaults) (name : Script) (strings : List String)
    (r : Recovery) :
    ((faults.script name).opening = true ∧ createScript faults name strings r = .error r) ∨
    ((faults.script name).NoneIn strings.length ∧ createScript faults name strings r =
      .ok ⟨r.scripts.set name (some (content strings)), name :: r.written⟩) ∨
    ((faults.script name).opening = false ∧ ¬ (faults.script name).NoneIn strings.length ∧
      ∃ file, createScript faults name strings r =
        .error ⟨r.scripts.set name (some file), name :: r.written⟩) := by
  cases hopening : (faults.script name).opening with
  | true => exact .inl ⟨rfl, by simp only [createScript, hopening, ↓reduceIte]⟩
  | false =>
      right
      have hcontent : (strings.map writeString).flatten = content strings := List.flatMap_def.symm
      by_cases hnone : (faults.script name).NoneIn strings.length
      · have hrewrite : (faults.script name).rewrite (strings.map writeString)
            (r.scripts.get name) = (some (strings.map writeString).flatten, true) :=
          Faults.rewrite_of_none_in (by rwa [List.length_map])
        refine .inl ⟨hnone, ?_⟩
        simp [createScript, hopening, hrewrite, hcontent]
      · have hfails : ((faults.script name).rewrite (strings.map writeString)
            (r.scripts.get name)).2 = false := by
          rw [← Bool.not_eq_true, Faults.rewrite_completed_iff, List.length_map]
          exact hnone
        refine .inr ⟨rfl, hnone, ((faults.script name).writePieces 0
          (strings.map writeString)).1, ?_⟩
        simp only [createScript, hopening, hfails]
        simp [Faults.rewrite, hopening]

/-- Scripts that the call has opened are there. -/
def Recovery.Present (r : Recovery) : Prop := ∀ name ∈ r.written, r.scripts.get name ≠ none

/-- A script that is opened is there, and the others stay as they are. -/
theorem Recovery.Present.set (h : r.Present) (name : Script) (file : Bytes) :
    Present ⟨r.scripts.set name (some file), name :: r.written⟩ := by
  intro other hother
  by_cases hname : other = name
  · rw [hname, Scripts.get_set_self]
    exact Option.some_ne_none file
  · rw [Scripts.get_set_of_ne _ _ hname]
    exact h other (List.mem_of_ne_of_mem hname hother)

end Create

/-! ## The call -/

namespace Device

variable {d : Device} {flashType : Int} {updateFileName : String} {faults : RecoveryFaults}
  {before : Scripts}

/-- An exception leaves nothing behind exactly if no script has been opened. -/
theorem clean_error_iff {r : Recovery} (h : r.Present) :
    d.Clean flashType updateFileName (.error r) ↔ r.written = [] := by
  constructor
  · intro hclean
    by_contra hne
    obtain ⟨name, hname⟩ := List.exists_mem_of_ne_nil _ hne
    exact h name hname (hclean name hname)
  · intro hnil name hname
    rw [hnil] at hname
    cases hname

/-- Scripts that differ by what was there in place of none. -/
theorem set_eq_set_iff {name : Script} {file : Option Bytes} :
    before.set name file = Scripts.set ⟨none, none⟩ name file ↔
      ∀ other ≠ name, before.get other = none := by
  constructor
  · intro heq other hother
    rw [← before.get_set_of_ne file hother, heq, Scripts.get_set_of_ne _ _ hother]
    cases other <;> rfl
  · intro h
    refine Scripts.ext_get fun other => ?_
    by_cases hother : other = name
    · rw [hother, Scripts.get_set_self, Scripts.get_set_self]
    · rw [Scripts.get_set_of_ne _ _ hother, Scripts.get_set_of_ne _ _ hother, h other hother]
      cases other <;> rfl

/-- A call that writes one script. -/
theorem clean_create_script_iff {name : Script}
    (hscripts : d.triggerUpdate flashType updateFileName =
      Scripts.set ⟨none, none⟩ name (some (content (d.strings updateFileName name)))) :
    d.Clean flashType updateFileName
        (createScript faults name (d.strings updateFileName name) ⟨before, []⟩) ↔
      (faults.script name).opening ∨
        (faults.script name).NoneIn (d.strings updateFileName name).length ∧
          ∀ other ≠ name, before.get other = none := by
  have hpresent : Recovery.Present ⟨before, []⟩ := fun name hname => by cases hname
  rcases create_script_cases faults name (d.strings updateFileName name) ⟨before, []⟩ with
    ⟨hopening, hresult⟩ | ⟨hnone, hresult⟩ | ⟨hopening, hnot, file, hresult⟩
  · rw [hresult, clean_error_iff hpresent]
    exact iff_of_true rfl (.inl hopening)
  · rw [hresult, Clean, hscripts, set_eq_set_iff]
    simp [hnone, hnone.opening]
  · rw [hresult, clean_error_iff (hpresent.set name file)]
    simp [hopening, hnot]

/-- A call that writes both scripts. -/
theorem clean_both_iff (hcwm : flashType ≠ RECOVERY_TYPE_CWM)
    (hopen : flashType ≠ RECOVERY_TYPE_OPEN) (hshell : faults.shell = false) :
    d.Clean flashType updateFileName
        (d.triggerUpdateOn flashType updateFileName faults before) ↔
      (faults.script .extendedcommand).opening ∨
        ∀ name, (faults.script name).NoneIn (d.strings updateFileName name).length := by
  have hpresent : Recovery.Present ⟨before, []⟩ := fun name hname => by cases hname
  unfold triggerUpdateOn
  simp only [hshell, Bool.false_eq_true, if_neg hcwm, if_neg hopen, ↓reduceIte]
  rcases create_script_cases faults .extendedcommand (d.strings updateFileName .extendedcommand)
      ⟨before, []⟩ with
    ⟨hopening, hresult⟩ | ⟨hnone, hresult⟩ | ⟨hopening, hnot, file, hresult⟩
  · rw [hresult, clean_error_iff hpresent]
    exact iff_of_true rfl (.inl hopening)
  · -- the first script is complete, so whatever fails now leaves it behind
    have hfirst := hpresent.set .extendedcommand
      (content (d.strings updateFileName .extendedcommand))
    rw [hresult, hnone.opening]
    simp only [Bool.false_eq_true, false_or]
    rcases create_script_cases faults .openrecoveryscript
        (d.strings updateFileName .openrecoveryscript) ⟨before.set .extendedcommand
          (some (content (d.strings updateFileName .extendedcommand))), [.extendedcommand]⟩ with
      ⟨hopening, hsecond⟩ | ⟨hnone', hsecond⟩ | ⟨hopening, hnot, file, hsecond⟩
    · rw [hsecond, clean_error_iff hfirst]
      refine iff_of_false (List.cons_ne_nil _ _) fun h => ?_
      rw [(h .openrecoveryscript).opening] at hopening
      cases hopening
    · rw [hsecond, Clean, triggerUpdate, createScripts, if_neg hcwm, if_neg hopen]
      refine iff_of_true rfl fun name => ?_
      cases name with
      | extendedcommand => exact hnone
      | openrecoveryscript => exact hnone'
    · rw [hsecond, clean_error_iff (hfirst.set .openrecoveryscript file)]
      exact iff_of_false (List.cons_ne_nil _ _) fun h => hnot (h .openrecoveryscript)
  · rw [hresult, clean_error_iff (hpresent.set .extendedcommand file)]
    refine iff_of_false (List.cons_ne_nil _ _) fun h => ?_
    rcases h with h | h
    · rw [hopening] at h
      cases h
    · exact hnot (h .extendedcommand)

/-- For every device, recovery type and update, and all failures and earlier scripts: a call of
`triggerUpdate` that throws leaves no script behind, and one that starts the recovery leaves exactly
the scripts of its type for the update, if and only if it fails before it has opened a script, or
does not fail and finds no script of another type. -/
theorem trigger_update_clean_iff (d : Device) (flashType : Int) (updateFileName : String)
    (faults : RecoveryFaults) (before : Scripts) :
    d.Clean flashType updateFileName
        (d.triggerUpdateOn flashType updateFileName faults before) ↔
      d.Harmless flashType updateFileName faults before := by
  unfold Harmless scriptsOf
  by_cases hshell : faults.shell
  · have hpresent : Recovery.Present ⟨before, []⟩ := fun name hname => by cases hname
    simp only [triggerUpdateOn, hshell, ↓reduceIte, true_or, iff_true]
    exact (clean_error_iff hpresent).2 rfl
  by_cases hcwm : flashType = RECOVERY_TYPE_CWM
  · have hscripts : d.triggerUpdate flashType updateFileName = Scripts.set ⟨none, none⟩
        .extendedcommand (some (content (d.strings updateFileName .extendedcommand))) := by
      rw [triggerUpdate, createScripts, if_pos hcwm]
      rfl
    simp only [triggerUpdateOn, hshell, Bool.false_eq_true, ↓reduceIte, if_pos hcwm,
      clean_create_script_iff hscripts]
    simp
  by_cases hopen : flashType = RECOVERY_TYPE_OPEN
  · have hscripts : d.triggerUpdate flashType updateFileName = Scripts.set ⟨none, none⟩
        .openrecoveryscript (some (content (d.strings updateFileName .openrecoveryscript))) := by
      rw [triggerUpdate, createScripts, if_neg hcwm, if_pos hopen]
      rfl
    simp only [triggerUpdateOn, hshell, Bool.false_eq_true, ↓reduceIte, if_neg hcwm, if_pos hopen,
      clean_create_script_iff hscripts]
    simp
  · have hall : ∀ name, name ∈ [Script.extendedcommand, .openrecoveryscript] := fun name => by
      cases name <;> simp
    rw [clean_both_iff hcwm hopen (Bool.eq_false_of_not_eq_true hshell)]
    simp only [hshell, Bool.false_eq_true, if_neg hcwm, if_neg hopen, hall]
    simp

end Device

/-- No failures, but for the opening of `name`. -/
def cannotOpen (name : Option Script) : RecoveryFaults where
  shell := false
  script other := ⟨other ∈ name, fun _ => none, false⟩

/-- If the second script cannot be opened, the first one stays. And a call without failures starts
the recovery with the script of the other recovery for an earlier update. -/
theorem scripts_left_behind :
    ¬ (oneStorage "a.zip").Clean RECOVERY_TYPE_BOTH "nightly.zip"
        ((oneStorage "a.zip").triggerUpdateOn RECOVERY_TYPE_BOTH "nightly.zip"
          (cannotOpen (some .openrecoveryscript)) ⟨none, none⟩) ∧
      ¬ (oneStorage "a.zip").Clean RECOVERY_TYPE_OPEN "nightly.zip"
        ((oneStorage "a.zip").triggerUpdateOn RECOVERY_TYPE_OPEN "nightly.zip" (cannotOpen none)
          ((oneStorage "a.zip").triggerUpdate RECOVERY_TYPE_CWM "old.zip")) := by
  constructor
  · rw [Device.clean_both_iff (by decide) (by decide) rfl]
    rintro (h | h)
    · cases h
    · cases (h .openrecoveryscript).opening
  · have hrun : (oneStorage "a.zip").triggerUpdateOn RECOVERY_TYPE_OPEN "nightly.zip"
        (cannotOpen none) ((oneStorage "a.zip").triggerUpdate RECOVERY_TYPE_CWM "old.zip") =
          createScript (cannotOpen none) .openrecoveryscript
            ((oneStorage "a.zip").strings "nightly.zip" .openrecoveryscript)
            ⟨(oneStorage "a.zip").triggerUpdate RECOVERY_TYPE_CWM "old.zip", []⟩ := rfl
    rw [hrun, Device.clean_create_script_iff rfl]
    rintro (h | ⟨-, h⟩)
    · cases h
    · cases h .extendedcommand (by decide)

end NamelessCenter.Install

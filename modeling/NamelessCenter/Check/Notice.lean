import NamelessCenter.Check.UpdateCheckService

/-!
# The notification of new updates

The callback of a check counts the newer updates of the list, names the first ones and offers to
download a single one, each time in a pass of its own; the download is that of the first update of
the list, which may be a downloaded one that is not newer. `notification_consistent_iff` says for
which results the passes agree.
-/

namespace NamelessCenter.Check

open Items

namespace Environment

variable (env : Environment)

/-- The updates of a result that are newer than the build, as they are shown. -/
def newer (result : List UpdateInfo) : List UpdateInfo :=
  (result.filter env.isNew).map UpdateInfo.rebuilt

/-- The notification shows the newer updates of the result. -/
structure Consistent (result : List UpdateInfo) (n : Notification) : Prop where
  lines : n.lines =
    ((env.newer result).take (min EXPANDED_NOTIF_UPDATE_COUNT (env.newer result).length)).map
      UpdateInfo.mName
  summary : n.summary.getD 0 = (env.newer result).length - n.lines.length
  /-- A single one is offered unless it is downloaded. -/
  download : ∀ ui, env.newer result = [ui] →
    n.download = if env.isUpdateDownloaded ui.getZipName then none else some ui

/-- The first update of the result that is shown is newer, or it and `ui` are both downloaded. -/
def ShownFirst (result : List UpdateInfo) (ui : UpdateInfo) : Prop :=
  ∀ info, result.find? (fun info => env.isNew info || env.isUpdateDownloaded info.getZipName) =
      some info →
    env.isNew info ∨
      env.isUpdateDownloaded info.rebuilt.getZipName ∧ env.isUpdateDownloaded ui.getZipName

end Environment

section Passes

variable {env : Environment} {result : List UpdateInfo}

/-- The newer updates are shown. -/
theorem filter_is_new_updates : (env.updates result).filter env.isNew = env.newer result := by
  have hnew : env.isNew ∘ UpdateInfo.rebuilt = env.isNew := rfl
  rw [Environment.updates, Environment.newer, List.filter_map, hnew, List.filter_filter]
  congr 1
  refine List.filter_congr fun info _ => ?_
  cases env.isNew info <;> rfl

/-- The count. -/
theorem real_update_count_updates :
    env.realUpdateCount (env.updates result) = (env.newer result).length := by
  rw [Environment.realUpdateCount, List.countP_eq_length_filter, filter_is_new_updates]

/-- The loop adds the names of newer updates behind `lines` until there are enough. -/
theorem foldl_add_lines (updates : List UpdateInfo) (lines : List String) :
    updates.foldl (fun lines ui =>
        if lines.length < EXPANDED_NOTIF_UPDATE_COUNT ∧ env.isNew ui then lines ++ [ui.mName]
        else lines) lines =
      lines ++ ((updates.filter env.isNew).take
        (EXPANDED_NOTIF_UPDATE_COUNT - lines.length)).map UpdateInfo.mName := by
  induction updates generalizing lines with
  | nil => simp
  | cons ui updates ih =>
      rw [List.foldl_cons, ih]
      by_cases hnew : env.isNew ui
      · rw [List.filter_cons_of_pos hnew]
        by_cases hroom : lines.length < EXPANDED_NOTIF_UPDATE_COUNT
        · have hrest : EXPANDED_NOTIF_UPDATE_COUNT - lines.length =
              EXPANDED_NOTIF_UPDATE_COUNT - (lines.length + 1) + 1 := by omega
          rw [if_pos ⟨hroom, hnew⟩, hrest, List.take_succ_cons, List.length_append,
            List.length_singleton, List.append_assoc]
          rfl
        · have hfull : EXPANDED_NOTIF_UPDATE_COUNT - lines.length = 0 := by omega
          rw [if_neg fun h => hroom h.1, hfull, List.take_zero, List.take_zero]
      · rw [List.filter_cons_of_neg hnew, if_neg fun h => hnew h.2]

/-- The lines. -/
theorem add_lines_updates :
    env.addLines (env.updates result) =
      ((env.newer result).take EXPANDED_NOTIF_UPDATE_COUNT).map UpdateInfo.mName := by
  rw [Environment.addLines, foldl_add_lines, filter_is_new_updates]
  rfl

/-- The update that is offered is the first of the result that is newer or downloaded. -/
theorem download_updates :
    env.download (env.updates result) =
      ((result.find? fun info => env.isNew info || env.isUpdateDownloaded info.getZipName).map
        UpdateInfo.rebuilt).filter fun ui => !env.isUpdateDownloaded ui.getZipName := by
  rw [Environment.download, Environment.updates, List.head?_map, List.head?_filter]

/-- The notification of a result. -/
theorem notify_mem_on_completed {mAction : Option Action} {n : Notification}
    (h : .notify n ∈ env.onCompleted mAction (some result)) :
    env.notification (env.updates result) = some n := by
  unfold Environment.onCompleted at h
  by_cases hui : mAction = some .CHECK_UI
  · simp [hui] at h
  · simpa [hui] using h

/-- A newer update that is shown comes from one of the result. -/
theorem exists_of_mem_newer {ui : UpdateInfo} (h : ui ∈ env.newer result) :
    ∃ info ∈ result, env.isNew info ∧ info.rebuilt = ui := by
  obtain ⟨info, hinfo, hui⟩ := List.mem_map.1 h
  obtain ⟨hmem, hnew⟩ := List.mem_filter.1 hinfo
  exact ⟨info, hmem, hnew, hui⟩

/-- The download of a single newer update is right exactly if it is the first update shown, or
neither it nor the first one has to be downloaded. -/
theorem download_eq_iff {ui : UpdateInfo} (hsingle : env.newer result = [ui]) :
    (env.download (env.updates result) =
        if env.isUpdateDownloaded ui.getZipName then none else some ui) ↔
      env.ShownFirst result ui := by
  obtain ⟨new, hnewmem, hnew, hrebuilt⟩ :=
    exists_of_mem_newer (hsingle ▸ List.mem_singleton_self ui : ui ∈ env.newer result)
  rw [download_updates, Environment.ShownFirst]
  cases hfirst : result.find? fun info =>
      env.isNew info || env.isUpdateDownloaded info.getZipName with
  | none =>
      have hnot := List.find?_eq_none.1 hfirst new hnewmem
      simp [hnew] at hnot
  | some info =>
      simp only [Option.map_some, Option.some.injEq, forall_eq', Option.filter_some]
      by_cases hinfo : env.isNew info
      · -- the first one is the single newer one
        have hmem : info.rebuilt ∈ env.newer result :=
          List.mem_map_of_mem (List.mem_filter.2 ⟨List.mem_of_find?_eq_some hfirst, hinfo⟩)
        rw [hsingle, List.mem_singleton] at hmem
        rw [hmem]
        cases env.isUpdateDownloaded ui.getZipName <;> simp [hinfo]
      · -- the two differ, as only one of them is newer
        have hne : info.rebuilt ≠ ui := fun heq => by
          rw [← hrebuilt] at heq
          have hsame : env.isNew info.rebuilt = env.isNew new.rebuilt := congrArg env.isNew heq
          exact hinfo (hsame.trans hnew)
        cases env.isUpdateDownloaded info.rebuilt.getZipName <;>
          cases env.isUpdateDownloaded ui.getZipName <;> simp [hinfo, hne]

end Passes

/-- For every result, build and set of files, the notification of a background check shows the first
newer updates, counts the others, and offers a single newer one unless it is downloaded, if and only
if such a single one is the first update shown, or it and the first one are both downloaded. -/
theorem notification_consistent_iff {env : Environment} {mAction : Option Action}
    {result : List UpdateInfo} {n : Notification}
    (h : .notify n ∈ env.onCompleted mAction (some result)) :
    env.Consistent result n ↔
      ∀ ui, env.newer result = [ui] → env.ShownFirst result ui := by
  have hn := notify_mem_on_completed h
  unfold Environment.notification at hn
  simp only [real_update_count_updates, add_lines_updates] at hn
  obtain ⟨hcount, hn⟩ := Option.ite_none_left_eq_some.1 hn
  rw [Option.some.injEq] at hn
  have hdownload : ∀ ui, env.newer result = [ui] → n.download = env.download (env.updates result) :=
    fun ui hsingle => by
      rw [← hn]
      exact if_pos (by rw [hsingle]; rfl)
  constructor
  · intro hconsistent ui hsingle
    rw [← download_eq_iff hsingle, ← hdownload ui hsingle]
    exact hconsistent.download ui hsingle
  · intro hfirst
    refine ⟨?_, ?_, fun ui hsingle => ?_⟩
    · rw [← hn]
      exact congrArg (List.map UpdateInfo.mName) List.take_eq_take_min
    · rw [← hn]
      simp only
      split
      · rename_i hall
        rw [hall]
        simp
      · rfl
    · rw [hdownload ui hsingle, download_eq_iff hsingle]
      exact hfirst ui hsingle

/-- An update that is older than the build, and was downloaded. -/
def weekly : UpdateInfo where
  mName := "weekly"
  mMd5 := "0"
  mUrl := "http://download"
  mTimestamp := "20140824"

/-- The only newer update is offered in front of a downloaded old one and another old one. -/
theorem notification_consistent_nightly :
    ∃ env : Environment, env.files = ["weekly.zip"] ∧
      ∃ n, .notify n ∈ env.onCompleted (some .CHECK)
          (some [nightly, weekly, { weekly with mName := "monthly" }]) ∧
        n.download = some nightly.rebuilt ∧
          env.Consistent [nightly, weekly, { weekly with mName := "monthly" }] n := by
  have hmem : .notify ⟨1, ["nightly"], none, some nightly.rebuilt⟩ ∈
      { oldBuild with files := ["weekly.zip"] }.onCompleted (some .CHECK)
        (some [nightly, weekly, { weekly with mName := "monthly" }]) := by decide
  refine ⟨_, rfl, _, hmem, rfl,
    (notification_consistent_iff hmem).2 fun ui _ info hinfo => .inl ?_⟩
  have hfirst : info = nightly := (Option.some.inj hinfo).symm
  rw [hfirst]
  decide

/-- The new update is not offered behind a downloaded old one. -/
theorem new_update_not_offered :
    ∃ env : Environment, env.files = ["weekly.zip"] ∧
      env.newer [weekly, nightly] = [nightly.rebuilt] ∧
      ∃ n, .notify n ∈ env.onCompleted (some .CHECK) (some [weekly, nightly]) ∧
        n.download = none ∧ ¬ env.Consistent [weekly, nightly] n := by
  refine ⟨{ oldBuild with files := ["weekly.zip"] }, rfl, rfl, ⟨1, ["nightly"], none, none⟩,
    by decide, rfl, fun h => ?_⟩
  have hdownload := h.download nightly.rebuilt rfl
  revert hdownload
  decide

end NamelessCenter.Check

import NamelessCenter.Check.UpdateCheckService

/-!
# The filter of the updates

An update of a result is posted if it is newer than the build or downloaded already. The filter asks
for the file of the update that the server sent, the posted object is rebuilt by a constructor that
removes `".zip"` from the name. `posted_eq_iff` says for which results and files the two agree.
-/

namespace NamelessCenter.Check

open Items

/-- The updates whose date is newer than the build, or whose file exists under the name that the
posted object gives it, in the order of the server. -/
def Environment.wanted (env : Environment) (result : List UpdateInfo) : List UpdateInfo :=
  (result.map UpdateInfo.rebuilt).filter fun ui =>
    env.isNew ui || env.isUpdateDownloaded ui.getZipName

/-- No file, or both files, of an older update whose name has a suffix to remove. -/
def Environment.SameFile (env : Environment) (info : UpdateInfo) : Prop :=
  ¬ env.isNew info → info.rebuilt.mName ≠ info.mName →
    (info.getZipName ∈ env.files ↔ info.rebuilt.getZipName ∈ env.files)

/-- Selecting before and after a map gives the same list exactly if the selections agree. -/
theorem map_filter_eq_filter_map_iff {α β : Type*} {f : α → β} {p : α → Bool} {q : β → Bool}
    {l : List α} : (l.filter p).map f = (l.map f).filter q ↔ ∀ x ∈ l, p x = q (f x) := by
  rw [List.filter_map]
  constructor
  · intro heq
    have himp : ∀ x ∈ l, p x → q (f x) := fun x hx hp => by
      have hmem : f x ∈ (l.filter p).map f :=
        List.mem_map_of_mem (List.mem_filter.2 ⟨hx, hp⟩)
      rw [heq] at hmem
      obtain ⟨y, hy, hxy⟩ := List.mem_map.1 hmem
      rw [← hxy]
      exact (List.mem_filter.1 hy).2
    -- what the second selection has, the first has too, as the lists are of the same length
    have hkept : (l.filter (q ∘ f)).filter p = l.filter p := by
      rw [List.filter_filter]
      refine List.filter_congr fun x hx => ?_
      cases hp : p x with
      | false => rfl
      | true => exact himp x hx hp
    have hlength : (l.filter p).length = (l.filter (q ∘ f)).length := by
      simpa using congrArg List.length heq
    have hall := List.length_filter_eq_length_iff.1 (hkept.symm ▸ hlength)
    intro x hx
    rw [Bool.eq_iff_iff]
    exact ⟨himp x hx, fun hq => hall x (List.mem_filter.2 ⟨hx, hq⟩)⟩
  · intro hall
    rw [List.filter_congr hall]
    rfl

/-- The constructor keeps the date. -/
theorem is_new_rebuilt (env : Environment) (info : UpdateInfo) :
    env.isNew info.rebuilt = env.isNew info := rfl

/-- The filter agrees with the posted object on an update. -/
theorem filter_agrees_iff {env : Environment} {info : UpdateInfo} :
    (env.isNew info || env.isUpdateDownloaded info.getZipName) =
        (env.isNew info.rebuilt || env.isUpdateDownloaded info.rebuilt.getZipName) ↔
      env.SameFile info := by
  unfold Environment.SameFile
  rw [is_new_rebuilt]
  by_cases hnew : env.isNew info
  · simp [hnew]
  · by_cases hname : info.rebuilt.mName = info.mName
    · simp [hname, UpdateInfo.getZipName]
    · simp [hnew, hname, Environment.isUpdateDownloaded]

/-- For every result, the list that is posted has exactly the newer and the downloaded updates if
and only if every older update whose name contains `".zip"` has both or none of its two files. -/
theorem posted_eq_iff (env : Environment) (mAction : Option Action) (result : List UpdateInfo) :
    .post (env.wanted result) ∈ env.onCompleted mAction (some result) ↔
      ∀ info ∈ result, env.SameFile info := by
  rw [post_mem_on_completed, eq_comm]
  exact map_filter_eq_filter_map_iff.trans
    (forall_congr' fun info => imp_congr_right fun _ => filter_agrees_iff)

/-- A downloaded older update is dropped: its file is looked for with the suffix twice. -/
theorem downloaded_dropped :
    ∃ env : Environment, env.files = ["nightly.zip"] ∧ ¬ env.isNew nightly ∧
      env.isUpdateDownloaded nightly.rebuilt.getZipName ∧
        .post [] ∈ env.onCompleted none (some [nightly]) ∧
          .post (env.wanted [nightly]) ∉ env.onCompleted none (some [nightly]) := by
  refine ⟨⟨20141001, ["nightly.zip"], 1412200000000⟩, rfl, ?_⟩
  decide

end NamelessCenter.Check

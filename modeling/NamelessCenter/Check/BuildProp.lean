import NamelessCenter.Lib.Lines
import NamelessCenter.Check.UpdateCheckService

/-!
# The build properties

`readBuildProp` takes the first line of `/system/build.prop` that contains the name of a property
and removes the name and the equals sign from it. `read_build_prop_iff` says for which files this is
the value of the property. The date of the build, which updates are compared with, and the device,
which they are asked for, are read this way.
-/

namespace NamelessCenter.Check

open Text

/-- The lines of the file, if it can be opened. -/
def buildLines (buildProp : Option String) : List (List Char) :=
  match buildProp with
  | none => []
  | some text => readLines text.toList

/-- `tmp.contains(prop)`. -/
def Contains (prop : String) (tmp : List Char) : Prop := prop.toList <:+: tmp

instance (prop : String) : DecidablePred (Contains prop) :=
  fun tmp => inferInstanceAs (Decidable (prop.toList <:+: tmp))

/-- The first line that contains the name. -/
def firstMention (buildProp : Option String) (prop : String) : Option (List Char) :=
  (buildLines buildProp).find? (Contains prop)

/-- `Helper.readBuildProp`. -/
def readBuildProp (buildProp : Option String) (prop : String) : String :=
  match firstMention buildProp prop with
  | none => "NULL"
  | some tmp => removeAll (prop ++ "=") (String.ofList tmp)

/-- `Helper.getBuildDate`. -/
def getBuildDate (buildProp : Option String) : Int :=
  parseDate (readBuildProp buildProp "ro.nameless.date")

/-- `UpdateHelper.ROM_URL`. -/
def ROM_URL : String := "https://api.nameless-rom.org/update"

/-- The channel without a restriction. -/
def CHANNEL_ALL : String := ""

/-- The channel of nightly builds. -/
def CHANNEL_NIGHTLY : String := "NIGHTLY"

/-- The channel of weekly builds. -/
def CHANNEL_WEEKLY : String := "WEEKLY"

/-- The URL of the updates of a channel for a device. -/
def updateUrl (updateChannel : Int) (device : String) : String :=
  let (url, query) :=
    if updateChannel = 0 then (CHANNEL_ALL, "")
    else if updateChannel = 1 then (CHANNEL_NIGHTLY, "")
    else if updateChannel = 2 then (CHANNEL_WEEKLY, "?display=full")
    else ("", "")
  let url := if url ≠ "" then ROM_URL ++ "/" ++ url else ROM_URL
  url ++ "/" ++ device ++ query

/-- `UpdateCheckService.getUpdateUrl`. -/
def getUpdateUrl (updateChannel : Int) (buildProp : Option String) : String :=
  updateUrl updateChannel (readBuildProp buildProp "ro.nameless.device")

/-- The value of the first line whose key is the property. -/
def property (buildProp : Option String) (prop : String) : String :=
  match firstValue prop.toList (buildLines buildProp) with
  | none => "NULL"
  | some value => String.ofList value

/-- The line sets the property, to a value that does not mention it. -/
def Sets (prop : String) (line : List Char) : Prop :=
  ∃ value, valueOf prop.toList line = some value ∧ ¬ Contains (prop ++ "=") value

/-- What is removed from a line that sets the property. -/
theorem remove_all_eq_iff {prop : String} {line value : List Char}
    (h : valueOf prop.toList line = some value) :
    removeAll (prop ++ "=") (String.ofList line) = String.ofList value ↔
      ¬ Contains (prop ++ "=") value := by
  have hne : (prop ++ "=").toList ≠ [] := by simp
  have hline : line = (prop ++ "=").toList ++ value := by
    rw [(value_of_eq_some_iff.1 h).2]
    simp
  rw [removeAll, String.toList_ofList, hline, remove_from_append hne, String.ofList_inj,
    remove_from_eq_self_iff hne, Contains]

/-- The first line that contains the name, if there is one, sets the property. -/
def Found (buildProp : Option String) (prop : String) : Prop :=
  ∀ line, firstMention buildProp prop = some line → Sets prop line

/-- The first line that contains the name does not belong to the property, and the value of the
property reads like a part of that line: it contains the name itself, or it begins with what the
line has in front of the name and an equals sign. -/
def Echoes (buildProp : Option String) (prop : String) : Prop :=
  ∃ line, firstMention buildProp prop = some line ∧ valueOf prop.toList line = none ∧
    (Contains prop (property buildProp prop).toList ∨
      ∃ before, before ++ (prop ++ "=").toList <+: line ∧
        before <+: (property buildProp prop).toList)

/-- A line that mentions the property is the first one to set it, or does not set it at all. -/
theorem property_eq {buildProp : Option String} {prop : String} {line value : List Char}
    (hfirst : firstMention buildProp prop = some line)
    (hvalue : valueOf prop.toList line = some value) :
    property buildProp prop = String.ofList value := by
  rw [property, first_value_eq_some hfirst hvalue]

/-- A file without the property has the value `"NULL"`. -/
theorem property_eq_null {buildProp : Option String} {prop : String}
    (hnone : firstMention buildProp prop = none) : property buildProp prop = "NULL" := by
  rw [property, first_value_eq_none hnone]

/-- What is read from a line that contains the name but does not belong to the property. -/
theorem remove_all_echoes {prop : String} {line : List Char} (h : Contains prop line) :
    Contains prop (removeAll (prop ++ "=") (String.ofList line)).toList ∨
      ∃ before, before ++ (prop ++ "=").toList <+: line ∧
        before <+: (removeAll (prop ++ "=") (String.ofList line)).toList := by
  have hne : (prop ++ "=").toList ≠ [] := by simp
  rw [removeAll, String.toList_ofList, String.toList_ofList]
  by_cases hkey : (prop ++ "=").toList <:+: line
  · exact .inr (remove_from_starts hkey)
  · rw [(remove_from_eq_self_iff hne).2 hkey]
    exact .inl h

/-- The property is read if the first line that contains its name sets it. -/
theorem read_eq_property {buildProp : Option String} {prop : String}
    (h : Found buildProp prop) : readBuildProp buildProp prop = property buildProp prop := by
  unfold readBuildProp
  cases hfirst : firstMention buildProp prop with
  | none => exact (property_eq_null hfirst).symm
  | some line =>
      obtain ⟨value, hvalue, hrest⟩ := h line hfirst
      rw [property_eq hfirst hvalue]
      exact (remove_all_eq_iff hvalue).2 hrest

/-- Otherwise it is read only if its value reads like a part of another line. -/
theorem found_of_read {buildProp : Option String} {prop : String} (h : ¬ Echoes buildProp prop)
    (hread : readBuildProp buildProp prop = property buildProp prop) : Found buildProp prop := by
  intro line hfirst
  unfold readBuildProp at hread
  simp only [hfirst] at hread
  cases hvalue : valueOf prop.toList line with
  | none =>
      have hmention : Contains prop line := by
        unfold firstMention at hfirst
        simpa using List.find?_some hfirst
      have hechoes := remove_all_echoes hmention
      rw [hread] at hechoes
      exact absurd ⟨line, hfirst, hvalue, hechoes⟩ h
  | some value =>
      rw [property_eq hfirst hvalue] at hread
      exact ⟨value, hvalue, (remove_all_eq_iff hvalue).1 hread⟩

/-- The URLs for two devices differ. -/
theorem update_url_inj {updateChannel : Int} {device device' : String} :
    updateUrl updateChannel device = updateUrl updateChannel device' ↔ device = device' := by
  refine ⟨fun heq => ?_, fun heq => heq ▸ rfl⟩
  have hlists := congrArg String.toList heq
  simp only [updateUrl, String.toList_append, List.append_cancel_left_eq,
    List.append_cancel_right_eq] at hlists
  exact String.toList_inj.1 hlists

/-- For every file and every name, `readBuildProp` returns the value of the first line whose key is
the name if the first line that contains the name sets it, to a value without the name and an equals
sign. This is also necessary, unless that line belongs to something else and the value of the
property reads like a part of it. The same holds for the device of the URL, and under the condition
the date of the build is that of its own property. -/
theorem read_build_prop_iff (buildProp : Option String) :
    (∀ prop, (Found buildProp prop → readBuildProp buildProp prop = property buildProp prop) ∧
      (¬ Echoes buildProp prop →
        (readBuildProp buildProp prop = property buildProp prop ↔ Found buildProp prop))) ∧
    (Found buildProp "ro.nameless.date" →
      getBuildDate buildProp = parseDate (property buildProp "ro.nameless.date")) ∧
    ∀ updateChannel, (Found buildProp "ro.nameless.device" → getUpdateUrl updateChannel buildProp =
        updateUrl updateChannel (property buildProp "ro.nameless.device")) ∧
      (¬ Echoes buildProp "ro.nameless.device" → (getUpdateUrl updateChannel buildProp =
          updateUrl updateChannel (property buildProp "ro.nameless.device") ↔
        Found buildProp "ro.nameless.device")) := by
  refine ⟨fun prop => ⟨read_eq_property, fun h => ⟨found_of_read h, read_eq_property⟩⟩,
    fun hdate => ?_, fun updateChannel => ?_⟩
  · rw [getBuildDate, read_eq_property hdate]
  · rw [getUpdateUrl, update_url_inj]
    exact ⟨read_eq_property, fun h => ⟨found_of_read h, read_eq_property⟩⟩

/-- A file with a comment in front of the property. -/
def commentedProp : String :=
  "# ro.nameless.date is set below\nro.nameless.date=20140601\n"

/-- The comment is taken for the date, so the build counts as one of the default date. -/
theorem comment_is_read :
    readBuildProp (some commentedProp) "ro.nameless.date" ≠
        property (some commentedProp) "ro.nameless.date" ∧
      property (some commentedProp) "ro.nameless.date" = "20140601" ∧
      getBuildDate (some commentedProp) = 20140101 := by
  decide

end NamelessCenter.Check

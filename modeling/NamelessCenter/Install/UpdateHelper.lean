import Mathlib.Data.List.Lex
import Mathlib.Data.List.Sort
import NamelessCenter.Lib.Text

/-!
# The recovery scripts

`UpdateHelper.triggerUpdate` leaves commands for the recovery, which installs the update and the
ZIP files of the folder `FlashAfterUpdate` behind it. One recovery executes a script line by line,
the other one reads calls with string literals. The names of the files are pasted into both
without escapes, so the scripts say what they should as long as no name contains a character that
its reader treats specially (`scripts_encode_iff`).
-/

namespace NamelessCenter.Install

open Bytes Text

/-! ## The files to install -/

/-- A volume of the device, with its path and whether it is removable. -/
structure StorageVolume where
  path : String
  isRemovable : Bool
  deriving DecidableEq, Repr

/-- What `triggerUpdate` asks the system for. -/
structure Device where
  getVolumeList : List StorageVolume
  getExternalStorageDirectory : String
  alternateIsInternal : Bool
  isExternalStorageEmulated : Bool
  myUserId : Nat
  /-- The names in the folder `UPDATE_FOLDER_ADDITIONAL`, if it can be listed. -/
  listFiles : Option (List String)
  deriving Repr

/-- The update folder, below the external storage. -/
def UPDATE_FOLDER : String := "Nameless/NamelessCenter"

/-- Scripts for both recoveries are written. -/
def RECOVERY_TYPE_BOTH : Int := 0

/-- Only the script for ClockworkMod is. -/
def RECOVERY_TYPE_CWM : Int := 1

/-- Only the script for open recoveries is. -/
def RECOVERY_TYPE_OPEN : Int := 2

namespace Device

variable (d : Device)

/-- The path of the update folder. -/
def UPDATE_FOLDER_FULL : String := d.getExternalStorageDirectory ++ "/" ++ UPDATE_FOLDER

/-- The path of the folder with the files to flash behind an update. -/
def UPDATE_FOLDER_ADDITIONAL : String := d.UPDATE_FOLDER_FULL ++ "/FlashAfterUpdate"

/-- `getStorageMountpoint`: where the recovery finds the external storage. -/
def getStorageMountpoint : String :=
  if d.getVolumeList.length ≤ 1 then "/sdcard"
  else if d.getVolumeList.any fun v =>
      v.path = d.getExternalStorageDirectory && (!v.isRemovable && d.alternateIsInternal) then
    "/emmc"
  else "/sdcard"

end Device

/-- The code units of a character in a string of Java. -/
def utf16 (c : Char) : List Nat :=
  if c.toNat < 0x10000 then [c.toNat]
  else [0xd800 + (c.toNat - 0x10000) / 0x400, 0xdc00 + (c.toNat - 0x10000) % 0x400]

/-- `s.compareTo(t) <= 0`. -/
def CompareToLe (s t : String) : Prop := s.toList.flatMap utf16 ≤ t.toList.flatMap utf16

instance : DecidableRel CompareToLe := fun _ _ => inferInstanceAs (Decidable (_ ≤ _))

/-- `name.toLowerCase(Locale.ENGLISH).endsWith(".zip")`. Only ASCII letters become the letters of
the suffix. -/
def isZip (name : String) : Bool := ".zip".toList.isSuffixOf (name.toList.map Char.toLower)

/-- `getFlashAfterUpdateZIPs`: the ZIP files that the user wants to install behind each update. -/
def Device.getFlashAfterUpdateZIPs (d : Device) : List String :=
  match d.listFiles with
  | none => []
  | some names =>
      let filenames := (names.filter isZip).map fun name =>
        d.UPDATE_FOLDER_ADDITIONAL ++ "/" ++ name
      -- the names become relative to the update folder again
      let extras := (filenames.filter fun filename =>
        d.UPDATE_FOLDER_FULL.toList.isPrefixOf filename.toList).map
          (removeAll (d.UPDATE_FOLDER_FULL ++ "/"))
      extras.insertionSort CompareToLe

/-! ## The scripts -/

/-- `writeString(os, s)`: the bytes that are written. -/
def writeString (s : String) : Bytes := utf8 (s ++ "\n")

/-- A file to which these strings are written. -/
def content (strings : List String) : Bytes := strings.flatMap writeString

/-- `createOpenRecoveryScript`: the strings that are written. -/
def createOpenRecoveryScript (root filename : String) (files : List String) : List String :=
  "set tw_signed_zip_verify 0" :: ("install " ++ filename) ::
    files.map (fun file => "install " ++ (root ++ file)) ++ ["wipe cache"]

/-- `createCwmScript`: the strings that are written. -/
def createCwmScript (root filename : String) (files : List String) : List String :=
  ("install_zip(\"" ++ filename ++ "\");") ::
    files.map (fun file => "install_zip(\"" ++ (root ++ file) ++ "\");") ++
    ["run_program(\"/sbin/busybox\", \"rm\", \"-rf\", \"/cache/*\");"]

/-- The scripts that are left in `/cache/recovery`. -/
structure Scripts where
  extendedcommand : Option Bytes
  openrecoveryscript : Option Bytes
  deriving DecidableEq, Repr

/-- The scripts for the recovery of this type. -/
def createScripts (flashType : Int) (root flashFilename : String) (extras : List String) :
    Scripts :=
  let cwm := content (createCwmScript root flashFilename extras)
  let openRecovery := content (createOpenRecoveryScript root flashFilename extras)
  -- any other type than these two stands for both recoveries
  if flashType = RECOVERY_TYPE_CWM then ⟨some cwm, none⟩
  else if flashType = RECOVERY_TYPE_OPEN then ⟨none, some openRecovery⟩
  else ⟨some cwm, some openRecovery⟩

/-- `root` in `triggerUpdate`: the update folder as the recovery sees it. -/
def Device.root (d : Device) : String :=
  let userPath := if d.isExternalStorageEmulated then "/" ++ toString d.myUserId else ""
  d.getStorageMountpoint ++ userPath ++ "/" ++ UPDATE_FOLDER ++ "/"

/-- `triggerUpdate(updateFileName)`, up to the reboot. -/
def Device.triggerUpdate (d : Device) (flashType : Int) (updateFileName : String) : Scripts :=
  createScripts flashType d.root (d.root ++ updateFileName) d.getFlashAfterUpdateZIPs

/-! ## What the recoveries read -/

/-- The files to install: the update and behind it the extras. -/
def installed (root updateFileName : String) (extras : List String) : List String :=
  (updateFileName :: extras).map (root ++ ·)

/-- The commands for the recovery that executes lines. -/
def commandLines (files : List String) : List Bytes :=
  utf8 "set tw_signed_zip_verify 0" :: files.map (fun file => utf8 "install " ++ utf8 file) ++
    [utf8 "wipe cache"]

/-- The call that installs a file. -/
def installZip (file : String) : Call := ⟨utf8 "install_zip", [utf8 file]⟩

/-- The call that wipes the cache. -/
def wipeCache : Call :=
  ⟨utf8 "run_program", [utf8 "/sbin/busybox", utf8 "rm", utf8 "-rf", utf8 "/cache/*"]⟩

/-- The commands for the recovery that reads calls. -/
def commandCalls (files : List String) : List Call := files.map installZip ++ [wipeCache]

/-- The scripts consist of the commands to install these files. -/
def Scripts.Encode (s : Scripts) (files : List String) : Prop :=
  (∀ script ∈ s.openrecoveryscript, lines newline script = commandLines files) ∧
    ∀ script ∈ s.extendedcommand, calls script = some (commandCalls files)

/-- The content of a script is its lines, each with its end. -/
theorem content_eq_unlines (strings : List String) :
    content strings = unlines newline (strings.map utf8) := by
  have hwrite : ∀ s, writeString s = utf8 s ++ [newline] := fun s => utf8_append s "\n"
  rw [content, unlines, List.flatMap_map]
  exact List.flatMap_congr fun s _ => hwrite s

/-- The lines of the script for open recoveries are the commands it should contain. -/
theorem map_utf8_create_open_recovery_script (root updateFileName : String) (extras : List String) :
    (createOpenRecoveryScript root (root ++ updateFileName) extras).map utf8 =
      commandLines (installed root updateFileName extras) := by
  simp [createOpenRecoveryScript, commandLines, installed]

/-- The text of the call that installs a file. -/
theorem utf8_install_zip (file : String) :
    utf8 ("install_zip(\"" ++ file ++ "\");") = (installZip file).text := by
  have hopen : utf8 "install_zip(\"" = utf8 "install_zip" ++ [0x28, quote] := by decide
  have hclose : utf8 "\");" = [quote, 0x29, 0x3b] := by decide
  rw [utf8_append, utf8_append, hopen, hclose]
  simp [installZip, Call.text, argsText]

/-- The lines of the script for ClockworkMod are the calls it should contain. -/
theorem map_utf8_create_cwm_script (root updateFileName : String) (extras : List String) :
    (createCwmScript root (root ++ updateFileName) extras).map utf8 =
      (commandCalls (installed root updateFileName extras)).map Call.text := by
  have hwipe : utf8 "run_program(\"/sbin/busybox\", \"rm\", \"-rf\", \"/cache/*\");" =
      wipeCache.text := by decide
  simp [createCwmScript, commandCalls, installed, utf8_install_zip, hwipe, -utf8_append,
    Function.comp_def]

/-- A line feed stays one byte. -/
theorem newline_mem_utf8_iff {s : String} : newline ∈ utf8 s ↔ '\n' ∈ s.toList :=
  mem_utf8_iff (c := '\n') (by decide)

/-- Nothing in the name is special in a string literal. -/
theorem plain_utf8_iff {s : String} :
    Plain (utf8 s) ↔ '\n' ∉ s.toList ∧ '"' ∉ s.toList ∧ '\\' ∉ s.toList := by
  have hquote : quote ∈ utf8 s ↔ '"' ∈ s.toList := mem_utf8_iff (c := '"') (by decide)
  have hbackslash : backslash ∈ utf8 s ↔ '\\' ∈ s.toList := mem_utf8_iff (c := '\\') (by decide)
  rw [Plain, newline_mem_utf8_iff, hquote, hbackslash]

/-- The lines of the script are the commands if no path contains a line break. -/
theorem lines_open_recovery_script_iff (root updateFileName : String) (extras : List String) :
    lines newline (content (createOpenRecoveryScript root (root ++ updateFileName) extras)) =
        commandLines (installed root updateFileName extras) ↔
      ∀ file ∈ installed root updateFileName extras, '\n' ∉ file.toList := by
  rw [content_eq_unlines, map_utf8_create_open_recovery_script, lines_unlines_iff]
  have hinstall : ∀ file, newline ∉ utf8 "install " ++ utf8 file ↔ '\n' ∉ file.toList := by
    intro file
    have hprefix : '\n' ∉ "install ".toList := by decide
    rw [List.mem_append, not_or, newline_mem_utf8_iff, newline_mem_utf8_iff]
    exact and_iff_right hprefix
  have hverify : newline ∉ utf8 "set tw_signed_zip_verify 0" := by decide
  have hwipe : newline ∉ utf8 "wipe cache" := by decide
  simp only [commandLines, List.mem_append, List.mem_cons, List.mem_map, List.not_mem_nil, or_false]
  constructor
  · intro h file hfile
    exact (hinstall file).1 (h _ (.inl (.inr ⟨file, hfile, rfl⟩)))
  · rintro h line ((rfl | ⟨file, hfile, rfl⟩) | rfl)
    · exact hverify
    · exact (hinstall file).2 (h file hfile)
    · exact hwipe

/-- The calls of the script are the commands if no path contains a line break, a quote or a
backslash. -/
theorem calls_cwm_script_iff (root updateFileName : String) (extras : List String) :
    calls (content (createCwmScript root (root ++ updateFileName) extras)) =
        some (commandCalls (installed root updateFileName extras)) ↔
      ∀ file ∈ installed root updateFileName extras,
        '\n' ∉ file.toList ∧ '"' ∉ file.toList ∧ '\\' ∉ file.toList := by
  have hne : utf8 "install_zip" ≠ [] := by decide
  have hword : ∀ b ∈ utf8 "install_zip", isWordChar b := List.all_eq_true.1 (by decide)
  have hwipe : wipeCache.WellFormed :=
    ⟨by decide, List.all_eq_true.1 (by decide), List.cons_ne_nil _ _⟩
  have hwipeArgs : ∀ a ∈ wipeCache.args, Plain a := by decide
  rw [content_eq_unlines, map_utf8_create_cwm_script, calls_unlines_iff]
  case hcs =>
    intro c hc
    rcases List.mem_append.1 hc with hfile | hlast
    · obtain ⟨file, -, rfl⟩ := List.mem_map.1 hfile
      exact ⟨hne, hword, List.cons_ne_nil _ _⟩
    · rw [List.mem_singleton.1 hlast]
      exact hwipe
  case hargs =>
    -- `install_zip` has one argument, and those of the last call are plain whatever the files are
    intro c hc
    rcases List.mem_append.1 hc with hfile | hlast
    · obtain ⟨file, -, rfl⟩ := List.mem_map.1 hfile
      exact .inl rfl
    · rw [List.mem_singleton.1 hlast]
      exact .inr hwipeArgs
  rw [commandCalls, List.forall_mem_append, List.forall_mem_singleton, List.forall_mem_map]
  refine (and_iff_left hwipeArgs).trans (forall₂_congr fun file _ => ?_)
  rw [installZip, List.forall_mem_singleton, plain_utf8_iff]

/-- The scripts say what to install if no path contains a line break, and, where a script with
string literals is written, none contains a quote or a backslash. -/
theorem scripts_encode_iff (flashType : Int) (root updateFileName : String) (extras : List String) :
    (createScripts flashType root (root ++ updateFileName) extras).Encode
        (installed root updateFileName extras) ↔
      ∀ file ∈ installed root updateFileName extras, '\n' ∉ file.toList ∧
        (flashType ≠ RECOVERY_TYPE_OPEN → '"' ∉ file.toList ∧ '\\' ∉ file.toList) := by
  have hlines := lines_open_recovery_script_iff root updateFileName extras
  have hcalls := calls_cwm_script_iff root updateFileName extras
  unfold Scripts.Encode createScripts
  simp only
  split
  · rename_i hcwm
    have hne : flashType ≠ RECOVERY_TYPE_OPEN := by rw [hcwm]; decide
    simpa [hne] using hcalls
  · split
    · rename_i hopen
      simpa [hopen] using hlines
    · rename_i hne
      -- a file that suits the literals suits the lines as well
      simp only [Option.mem_def, Option.some.injEq, forall_eq', hlines, hcalls, ne_eq, hne,
        not_false_eq_true, forall_const]
      exact and_iff_right_of_imp fun h file hfile => (h file hfile).1

/-- A device with one storage and a ZIP file to flash behind each update. -/
def oneStorage (extra : String) : Device where
  getVolumeList := []
  getExternalStorageDirectory := "/storage/emulated/0"
  alternateIsInternal := false
  isExternalStorageEmulated := true
  myUserId := 0
  listFiles := some ["readme.txt", extra]

/-- A quote in the name of a file ends the string literal before the name does. -/
theorem quote_breaks_script :
    ¬ ((oneStorage "a\"b.ZIP").triggerUpdate RECOVERY_TYPE_BOTH "nightly.zip").Encode
      (installed (oneStorage "a\"b.ZIP").root "nightly.zip"
        (oneStorage "a\"b.ZIP").getFlashAfterUpdateZIPs) := by
  have hextras : (oneStorage "a\"b.ZIP").getFlashAfterUpdateZIPs =
      ["FlashAfterUpdate/a\"b.ZIP"] := by decide
  have hroot : (oneStorage "a\"b.ZIP").root = "/sdcard/0/Nameless/NamelessCenter/" := by decide
  intro hencode
  have hcalls := hencode.2 _ rfl
  rw [calls_cwm_script_iff, hextras, hroot] at hcalls
  have hplain := hcalls "/sdcard/0/Nameless/NamelessCenter/FlashAfterUpdate/a\"b.ZIP" (by decide)
  exact hplain.2.1 (by decide)

end NamelessCenter.Install

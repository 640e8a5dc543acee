import Mathlib.Data.List.TakeWhile
import Mathlib.Logic.Function.Basic
import NamelessCenter.Lib.KeyedRows
import NamelessCenter.Lib.Text

/-!
# The delta script of the server

`opendelta` is `opendelta.sh` on the directories it works with. The six runs of the tools have
given results: each leaves some file at its output path, or none, and ends with the exit status that
the tool's `main` has for it. The script looks at no status, so `publishes_only_on_success_iff` says
that it protects the published files and the last build only where nothing fails.

Device and file names are taken without the characters the shell expands, and `rm`, `mkdir` and `cp`
of an existing file succeed.
-/

namespace NamelessCenter.Server

open Bytes

/-! ## Directories -/

/-- A directory: its files in the order in which `ls` prints them. -/
abbrev Directory := List (String × Bytes)

namespace Directory

/-- The content of a file. -/
def find (d : Directory) (name : String) : Option Bytes :=
  (KeyedRows.find Prod.fst name d).map Prod.snd

/-- A file is written. -/
def put (d : Directory) (name : String) (content : Bytes) : Directory :=
  KeyedRows.replace Prod.fst name (name, content) d

/-- `cp src/name dst/name`. -/
def copy (src : Directory) (name : String) (dst : Directory) : Directory :=
  match src.find name with
  | none => dst
  | some content => dst.put name content

/-- `cp src/* dst/.` -/
def copyAll (src dst : Directory) : Directory :=
  src.foldl (fun d file => d.put file.1 file.2) dst

/-- `rm -rf dir/*`, which leaves the names with a dot in front. -/
def clear (d : Directory) : Directory := d.filter fun file => file.1.toList.head? = some '.'

end Directory

/-- The directories of the script, those of the builds by device. -/
structure FileSystem where
  product : String → Directory
  last : String → Directory
  publish : String → Directory
  work : Directory
  out : Directory

/-! ## Names -/

/-- `FILE_MATCH=nameless-*.zip` -/
def fileMatch (name : String) : Bool :=
  "nameless-".toList.isPrefixOf name.toList && ".zip".toList.isSuffixOf name.toList

/-- The first word of an unquoted expansion. -/
def firstWord (s : String) : String :=
  String.ofList (s.toList.takeWhile fun c => c ≠ ' ' ∧ c ≠ '\t' ∧ c ≠ '\n')

/-- `$(getFileName $(ls -1 dir/$FILE_MATCH))`. The function prints the file name of its first
argument, and `ls` prints nothing when no file matches. -/
def getFileName (d : Directory) : String :=
  match (d.map Prod.fst).find? fileMatch with
  | none => ""
  | some name => firstWord name

/-- `getFileNameNoExt`: the name up to its last dot. -/
def getFileNameNoExt (name : String) : String :=
  match name.toList.reverse.dropWhile (· ≠ '.') with
  | [] => name
  | _ :: base => String.ofList base.reverse

/-! ## The tools -/

/-- The tools that the script runs. -/
inductive Tool where
  | zipadjust
  | minSignApk
  | xdelta3
  deriving DecidableEq, Repr

/-- What a run of a tool does: it writes its output, or it fails and leaves a file that is empty or
partial, or none. -/
inductive Result where
  | success (output : Bytes)
  | failure (output : Option Bytes)
  deriving DecidableEq, Repr

/-- What a run has left in its output file. -/
def Result.output : Result → Option Bytes
  | .success output => some output
  | .failure output => output

/-- The run ends with status 0. -/
def Result.Succeeds : Result → Prop
  | .success _ => True
  | .failure _ => False

/-- The exit status. `main` of `zipadjust_run.c` drops the result of `zipadjust`, and that of
`MinSignAPK` prints the exceptions it catches. -/
def exitStatus : Tool → Result → Nat
  | .zipadjust, _ => 0
  | .minSignApk, _ => 0
  | .xdelta3, .success _ => 0
  | .xdelta3, .failure _ => 1

/-- One run of a tool with the output path `dir/name`. -/
def runTool (tool : Tool) (result : Result) (name : String) (dir : Directory) : Nat × Directory :=
  (exitStatus tool result,
    match result.output with
    | none => dir
    | some output => dir.put name output)

/-- The results of the six runs, named after their outputs. -/
structure Results where
  current : Result
  last : Result
  currentSigned : Result
  lastSigned : Result
  update : Result
  sign : Result

/-- All six runs do. -/
structure Results.AllSucceed (r : Results) : Prop where
  current : r.current.Succeeds
  last : r.last.Succeeds
  currentSigned : r.currentSigned.Succeeds
  lastSigned : r.lastSigned.Succeeds
  update : r.update.Succeeds
  sign : r.sign.Succeeds

/-- The runs in their order. The script goes on whatever the statuses are. -/
def runTools (r : Results) (base : String) (fs : FileSystem) : FileSystem :=
  let (_, work) := runTool .zipadjust r.current "current.zip" fs.work
  let (_, work) := runTool .zipadjust r.last "last.zip" work
  let (_, work) := runTool .minSignApk r.currentSigned "current_signed.zip" work
  let (_, work) := runTool .minSignApk r.lastSigned "last_signed.zip" work
  let (_, out) := runTool .xdelta3 r.update (base ++ ".update") fs.out
  let (_, out) := runTool .xdelta3 r.sign (base ++ ".sign") out
  { fs with work, out }

/-! ## The description of a delta -/

section Description

variable (md5 : Bytes → String)

/-- `getFileMD5`, which prints nothing for a missing file. -/
def getFileMD5 (file : Option Bytes) : String := (file.map md5).getD ""

/-- `getFileSize`, which prints nothing for a missing file. -/
def getFileSize (file : Option Bytes) : String := (file.map fun content =>
  toString content.length).getD ""

/-- A build in the description: the name and the sizes and digests of the three files. -/
def buildLines (name : String) (store signed official : Option Bytes) : List String :=
  ["      \"name\": \"" ++ name ++ "\",",
    "      \"size_store\": " ++ getFileSize store ++ ",",
    "      \"size_store_signed\": " ++ getFileSize signed ++ ",",
    "      \"size_official\": " ++ getFileSize official ++ ",",
    "      \"md5_store\": \"" ++ getFileMD5 md5 store ++ "\",",
    "      \"md5_store_signed\": \"" ++ getFileMD5 md5 signed ++ "\",",
    "      \"md5_official\": \"" ++ getFileMD5 md5 official ++ "\""]

/-- A delta in the description: the file and what it is applied to. -/
def deltaLines (name : String) (file applied : Option Bytes) : List String :=
  ["      \"name\": \"" ++ name ++ "\",",
    "      \"size\": " ++ getFileSize file ++ ",",
    "      \"size_applied\": " ++ getFileSize applied ++ ",",
    "      \"md5\": \"" ++ getFileMD5 md5 file ++ "\",",
    "      \"md5_applied\": \"" ++ getFileMD5 md5 applied ++ "\""]

/-- The text of the `.delta` file. -/
def description (device fileCurrent fileLast base : String) (fs : FileSystem) : List String :=
  ["\x7b", "  \"version\": 1,", "  \"in\": \x7b"] ++
    buildLines md5 fileLast (fs.work.find "last.zip") (fs.work.find "last_signed.zip")
      ((fs.last device).find fileLast) ++
    ["  \x7d,", "  \"update\": \x7b"] ++
    deltaLines md5 (base ++ ".update") (fs.out.find (base ++ ".update"))
      (fs.work.find "current.zip") ++
    ["  \x7d,", "  \"signature\": \x7b"] ++
    deltaLines md5 (base ++ ".sign") (fs.out.find (base ++ ".sign"))
      (fs.work.find "current_signed.zip") ++
    ["  \x7d,", "  \"out\": \x7b"] ++
    buildLines md5 fileCurrent (fs.work.find "current.zip") (fs.work.find "current_signed.zip")
      ((fs.product device).find fileCurrent) ++
    ["  \x7d", "\x7d"]

/-! ## The script -/

/-- The part behind the checks. -/
def produce (device fileCurrent fileLast : String) (r : Results) (fs : FileSystem) : FileSystem :=
  let base := getFileNameNoExt fileLast
  let fs := runTools r base { fs with work := [], out := [] }
  let delta := description md5 device fileCurrent fileLast base fs
  let out := fs.out.put (base ++ ".delta") (Text.utf8 (String.join (delta.map (· ++ "\n"))))
  let build := Directory.copy (fs.product device) fileCurrent (fs.last device).clear
  { fs with
    work := []
    out := []
    publish := Function.update fs.publish device (out.copyAll (fs.publish device))
    last := Function.update fs.last device build }

/-- The device is the value of the variable `DEVICE`, or else the first argument. -/
def deviceOf (setDevice argument : String) : String :=
  if setDevice = "" then argument else setDevice

/-- `opendelta.sh`, with its exit status. -/
def opendelta (setDevice argument : String) (r : Results) (fs : FileSystem) : Nat × FileSystem :=
  let device := deviceOf setDevice argument
  if device = "" then (1, fs)
  else
    let fileCurrent := getFileName (fs.product device)
    let fileLast := getFileName (fs.last device)
    if fileCurrent = "" then (1, fs)
    else if fileLast = "" then
      let build := Directory.copy (fs.product device) fileCurrent (fs.last device)
      (0, { fs with last := Function.update fs.last device build })
    else if fileLast = fileCurrent then (1, fs)
    else (0, produce md5 device fileCurrent fileLast r fs)

end Description

/-! ## What a run protects -/

/-- The script gets to the runs of the tools. -/
structure RunsTools (device : String) (fs : FileSystem) : Prop where
  isSet : device ≠ ""
  current : getFileName (fs.product device) ≠ ""
  last : getFileName (fs.last device) ≠ ""
  differ : getFileName (fs.last device) ≠ getFileName (fs.product device)

/-- Unless all six runs take place and succeed, the published files of every device stay as they
are, and so does a last build. -/
def PublishesOnlyOnSuccess (md5 : Bytes → String) (setDevice argument : String) (r : Results)
    (fs : FileSystem) : Prop :=
  let device := deviceOf setDevice argument
  let after := (opendelta md5 setDevice argument r fs).2
  ¬ (RunsTools device fs ∧ r.AllSucceed) →
    after.publish = fs.publish ∧ (getFileName (fs.last device) ≠ "" → after.last = fs.last)

/-! ## What a run publishes -/

namespace Directory

/-- A file that was written is found. -/
theorem find_put_self (d : Directory) (name : String) (content : Bytes) :
    (d.put name content).find name = some content := by
  have hkey : Prod.fst (name, content) = name := rfl
  rw [find, put, KeyedRows.find_replace_self hkey]
  rfl

/-- Another file is found as before. -/
theorem find_put_of_ne (d : Directory) {name other : String} (content : Bytes)
    (h : other ≠ name) : (d.put name content).find other = d.find other := by
  have hkey : Prod.fst (name, content) = name := rfl
  rw [find, put, KeyedRows.find_replace_of_ne hkey h]
  rfl

/-- A copied directory goes before what the files of the target were. -/
theorem find_copy_all {src dst : Directory} (h : KeyedRows.Unique Prod.fst src) (name : String) :
    (src.copyAll dst).find name = (src.find name).or (dst.find name) := by
  induction src generalizing dst with
  | nil => rfl
  | cons file src ih =>
      obtain ⟨hfile, hrest⟩ := List.nodup_cons.1 h
      have hcons : copyAll (file :: src) dst = copyAll src (dst.put file.1 file.2) := rfl
      rw [hcons, ih hrest]
      by_cases hname : file.1 = name
      · have hnone : find src name = none := by
          rw [find, KeyedRows.find, List.filter_eq_nil_iff.2]
          · rfl
          · intro other hother hkey
            refine hfile (List.mem_map.2 ⟨other, hother, ?_⟩)
            rw [of_decide_eq_true hkey, hname]
        rw [hnone, Option.none_or, ← hname, find_put_self]
        simp [find, KeyedRows.find]
      · rw [find_put_of_ne dst file.2 (Ne.symm hname)]
        simp [find, KeyedRows.find, hname]

/-- Writing a file keeps the names unique. -/
theorem unique_put {d : Directory} (h : KeyedRows.Unique Prod.fst d) (name : String)
    (content : Bytes) : KeyedRows.Unique Prod.fst (d.put name content) :=
  KeyedRows.unique_replace h rfl

end Directory

/-- A tool leaves the other files alone, and at its output path what its result says. -/
theorem run_tool_find (tool : Tool) (result : Result) (name other : String) (dir : Directory) :
    (runTool tool result name dir).2.find other =
      if other = name then result.output.or (dir.find other) else dir.find other := by
  unfold runTool
  cases result.output with
  | none => simp
  | some output =>
      simp only
      split
      · rename_i heq
        rw [heq, Directory.find_put_self, Option.some_or]
      · rename_i hne
        exact Directory.find_put_of_ne dir output hne

/-- So does a run of a tool. -/
theorem unique_run_tool (tool : Tool) (result : Result) (name : String) {dir : Directory}
    (h : KeyedRows.Unique Prod.fst dir) :
    KeyedRows.Unique Prod.fst (runTool tool result name dir).2 := by
  unfold runTool
  cases result.output with
  | none => exact h
  | some output => exact Directory.unique_put h name output

/-- Whatever the two runs of the delta tool leave is published, and if they leave nothing, the
published files of an earlier run stay. -/
theorem produce_publishes (md5 : Bytes → String) (device fileCurrent fileLast : String)
    (r : Results) (fs : FileSystem) :
    let base := getFileNameNoExt fileLast
    let published := (produce md5 device fileCurrent fileLast r fs).publish device
    published.find (base ++ ".update") =
        r.update.output.or ((fs.publish device).find (base ++ ".update")) ∧
      published.find (base ++ ".sign") =
        r.sign.output.or ((fs.publish device).find (base ++ ".sign")) := by
  intro base published
  have hsuffix : ∀ suffix suffix' : String, suffix.toList ≠ suffix'.toList →
      base ++ suffix ≠ base ++ suffix' := by
    intro suffix suffix' hne heq
    have hlist := congrArg String.toList heq
    rw [String.toList_append, String.toList_append, List.append_cancel_left_eq] at hlist
    exact hne hlist
  have hsign : base ++ ".update" ≠ base ++ ".sign" := hsuffix _ _ (by decide)
  have hupdate : base ++ ".update" ≠ base ++ ".delta" := hsuffix _ _ (by decide)
  have hdelta : base ++ ".sign" ≠ base ++ ".delta" := hsuffix _ _ (by decide)
  let out := (runTool .xdelta3 r.sign (base ++ ".sign")
    (runTool .xdelta3 r.update (base ++ ".update") []).2).2
  have hunique : KeyedRows.Unique Prod.fst out :=
    unique_run_tool _ _ _ (unique_run_tool _ _ _ KeyedRows.unique_nil)
  obtain ⟨text, hpublished⟩ : ∃ text, published =
      (out.put (base ++ ".delta") text).copyAll (fs.publish device) :=
    ⟨_, Function.update_self ..⟩
  have hempty : ∀ name, Directory.find [] name = none := fun name => rfl
  rw [hpublished, Directory.find_copy_all (Directory.unique_put hunique _ _),
    Directory.find_copy_all (Directory.unique_put hunique _ _),
    Directory.find_put_of_ne out text hupdate, Directory.find_put_of_ne out text hdelta,
    run_tool_find, run_tool_find, run_tool_find, run_tool_find, if_neg hsign, if_pos rfl,
    if_pos rfl, if_neg (Ne.symm hsign), hempty, hempty, Option.or_none, Option.or_none]
  exact ⟨rfl, rfl⟩

/-! ## Whether a run protects -/

/-- The first word is the first of itself. -/
theorem first_word_first_word (s : String) : firstWord (firstWord s) = firstWord s := by
  rw [firstWord, firstWord, String.toList_ofList, List.takeWhile_idem]

/-- A file name that the script finds is one word. -/
theorem first_word_get_file_name (d : Directory) : firstWord (getFileName d) = getFileName d := by
  unfold getFileName
  split
  · rfl
  · exact first_word_first_word _

/-- A name with a dot in front does not match. -/
theorem file_match_of_hidden {name : String} (h : name.toList.head? = some '.') :
    fileMatch name = false := by
  rw [← Bool.not_eq_true]
  intro hmatch
  obtain ⟨rest, hrest⟩ := List.isPrefixOf_iff_prefix.1 (Bool.and_eq_true_iff.1 hmatch).1
  rw [← hrest] at h
  cases h

/-- Hidden files are not found. -/
theorem find_file_match_of_hidden {d : Directory} (h : ∀ file ∈ d, file.1.toList.head? = some '.') :
    (d.map Prod.fst).find? fileMatch = none := by
  rw [List.find?_eq_none]
  intro name hname
  obtain ⟨file, hfile, rfl⟩ := List.mem_map.1 hname
  rw [file_match_of_hidden (h file hfile)]
  exact Bool.false_ne_true

/-- The only build in a directory that was cleared before the copy is the copied one. -/
theorem get_file_name_copy_clear (src d : Directory) {name : String}
    (hname : firstWord name = name) :
    getFileName (Directory.copy src name d.clear) =
      if (src.find name).isSome ∧ fileMatch name = true then name else "" := by
  have hhidden : ∀ file ∈ d.clear, file.1.toList.head? = some '.' := fun file hfile =>
    of_decide_eq_true (List.mem_filter.1 hfile).2
  unfold Directory.copy
  cases src.find name with
  | none =>
      rw [getFileName, find_file_match_of_hidden hhidden]
      simp
  | some content =>
      have hrest : ((KeyedRows.delete Prod.fst name d.clear).map Prod.fst).find? fileMatch = none :=
        find_file_match_of_hidden fun file hfile => hhidden file (List.mem_filter.1 hfile).1
      simp only
      rw [getFileName, Directory.put, KeyedRows.replace, List.map_append, List.find?_append, hrest,
        Option.none_or]
      cases hmatch : fileMatch name with
      | false => simp [hmatch]
      | true => simp [hmatch, hname]

/-- Whatever the tools do, the build is copied to where the last one is kept. -/
theorem produce_last (md5 : Bytes → String) (device fileCurrent fileLast : String) (r : Results)
    (fs : FileSystem) :
    (produce md5 device fileCurrent fileLast r fs).last =
      Function.update fs.last device
        (Directory.copy (fs.product device) fileCurrent (fs.last device).clear) := rfl

/-- Behind its checks the script replaces the last build, whatever the tools did. -/
theorem produce_last_ne (md5 : Bytes → String) {device : String} {fs : FileSystem}
    (h : RunsTools device fs) (r : Results) :
    (produce md5 device (getFileName (fs.product device)) (getFileName (fs.last device)) r
      fs).last ≠ fs.last := by
  intro hsame
  have hlast := congrArg getFileName (congrFun hsame device)
  rw [produce_last, Function.update_self, get_file_name_copy_clear _ _ (first_word_get_file_name _)]
    at hlast
  split at hlast
  · exact h.differ hlast.symm
  · exact h.last hlast.symm

/-- What a run from the first tool on does. -/
theorem opendelta_of_runs_tools (md5 : Bytes → String) {setDevice argument : String}
    {fs : FileSystem} (h : RunsTools (deviceOf setDevice argument) fs) (r : Results) :
    opendelta md5 setDevice argument r fs =
      (0, produce md5 (deviceOf setDevice argument)
        (getFileName (fs.product (deviceOf setDevice argument)))
        (getFileName (fs.last (deviceOf setDevice argument))) r fs) := by
  rw [opendelta]
  simp only [if_neg h.isSet, if_neg h.current, if_neg h.last, if_neg h.differ]

/-- After a run whose tools have failed, the script refuses to make the delta again: the build it
was made for counts as the last one already. -/
theorem rerun_refused (md5 : Bytes → String) {setDevice argument : String} {fs : FileSystem}
    (h : RunsTools (deviceOf setDevice argument) fs)
    (hfile : ((fs.product (deviceOf setDevice argument)).find
      (getFileName (fs.product (deviceOf setDevice argument)))).isSome)
    (hmatch : fileMatch (getFileName (fs.product (deviceOf setDevice argument))) = true)
    (r r' : Results) :
    opendelta md5 setDevice argument r' (opendelta md5 setDevice argument r fs).2 =
      (1, (opendelta md5 setDevice argument r fs).2) := by
  rw [opendelta_of_runs_tools md5 h]
  generalize hdevice : deviceOf setDevice argument = device at h hfile hmatch ⊢
  generalize hafter : produce md5 device (getFileName (fs.product device))
    (getFileName (fs.last device)) r fs = after
  have hproduct : after.product = fs.product := by
    rw [← hafter]
    rfl
  have hlast : getFileName (after.last device) = getFileName (after.product device) := by
    rw [hproduct, ← hafter, produce_last, Function.update_self,
      get_file_name_copy_clear _ _ (first_word_get_file_name _), if_pos ⟨hfile, hmatch⟩]
  have hcurrent : getFileName (after.product device) ≠ "" := by
    rw [hproduct]
    exact h.current
  rw [opendelta, hdevice]
  simp only [if_neg h.isSet, if_neg hcurrent, hlast, if_true]

/-- The script publishes files and replaces the last build only on success exactly if no run of a
tool fails, or it stops at one of its checks. -/
theorem publishes_only_on_success_iff (md5 : Bytes → String) (setDevice argument : String)
    (r : Results) (fs : FileSystem) :
    PublishesOnlyOnSuccess md5 setDevice argument r fs ↔
      (RunsTools (deviceOf setDevice argument) fs → r.AllSucceed) := by
  generalize hdevice : deviceOf setDevice argument = device
  have hdef : PublishesOnlyOnSuccess md5 setDevice argument r fs ↔
      (¬ (RunsTools device fs ∧ r.AllSucceed) →
        (opendelta md5 setDevice argument r fs).2.publish = fs.publish ∧
          (getFileName (fs.last device) ≠ "" →
            (opendelta md5 setDevice argument r fs).2.last = fs.last)) := by
    rw [← hdevice]
    rfl
  rw [hdef]
  constructor
  · intro h hruns
    by_contra hfails
    have hkept := (h fun hall => hfails hall.2).2 hruns.last
    subst hdevice
    rw [opendelta_of_runs_tools md5 hruns] at hkept
    exact produce_last_ne md5 hruns r hkept
  · intro h hnot
    have hstops : ¬ RunsTools device fs := fun hruns => hnot ⟨hruns, h hruns⟩
    rw [opendelta, hdevice]
    by_cases hset : device = ""
    · simp [hset]
    by_cases hcurrent : getFileName (fs.product device) = ""
    · simp [hset, hcurrent]
    by_cases hlast : getFileName (fs.last device) = ""
    · simp [hset, hcurrent, hlast]
    by_cases hdiffer : getFileName (fs.last device) = getFileName (fs.product device)
    · simp [hset, hcurrent, hdiffer]
    · exact absurd ⟨hset, hcurrent, hlast, hdiffer⟩ hstops

/-- The last run of the delta tool stops on a full disk: its empty output is published, and the
build becomes the last one. -/
theorem empty_delta_published :
    let output : Result := .success [0]
    ¬ PublishesOnlyOnSuccess (fun _ => "") "d2" ""
      ⟨output, output, output, output, output, .failure (some [])⟩
      ⟨fun _ => [("nameless-2.zip", [2])], fun _ => [("nameless-1.zip", [1])], fun _ => [], [],
        []⟩ := by
  intro output h
  have hkept := (h fun hall => hall.2.sign).2 (by decide)
  exact absurd (congrFun hkept "d2") (by decide)

end NamelessCenter.Server

import NamelessCenter.Lib.Lines
import NamelessCenter.Items.UpdateInfo

/-!
# Changelogs

The page of a changelog is downloaded once and kept in a file, which is shown from then on. The file
is read line by line, and the lines are put together without what separated them.
`changelog_survives_iff` says which texts are read as they were written, and which pages are shown
again as they were shown first.
-/

namespace NamelessCenter.Items

open Bytes Text

/-- The character encoding of the platform, which can represent every string. -/
structure Charset where
  encode : String → Bytes
  decode : Bytes → String
  decode_encode : ∀ s, decode (encode s) = s

variable (charset : Charset)

/-! ## The file -/

/-- `FileUtils.writeToFile`: the content of the file, which replaces what was there. -/
def writeToFile (content : String) : Bytes := charset.encode content

/-- `FileUtils.readFromFile` of a file with this content. -/
def readFromFile (file : Bytes) : String :=
  String.ofList ((readLines (charset.decode file).toList).foldl (fun sb line => sb ++ line) [])

/-- What is read is the text without its line terminators. -/
theorem read_write (content : String) :
    readFromFile charset (writeToFile charset content) =
      String.ofList (content.toList.filter fun c => ¬ IsTerminator c) := by
  rw [readFromFile, writeToFile, charset.decode_encode, ← flatten_read_lines,
    List.foldl_append_eq_append, List.nil_append, List.map_id']

/-- A text is read as it was written if and only if it is a single line. -/
theorem read_write_eq_iff (content : String) :
    readFromFile charset (writeToFile charset content) = content ↔
      ∀ c ∈ content.toList, ¬ IsTerminator c := by
  rw [read_write, ← String.toList_inj, String.toList_ofList, ← flatten_read_lines,
    flatten_read_lines_eq_iff]

/-! ## The page -/

/-- The answer of the server: a page, or the message of an exception, which may be missing. -/
abbrev Response : Type := Except (Option String) String

/-- The URL of the changelog of an update. -/
def changelogUrl (updateInfo : UpdateInfo) : String :=
  replaceAll "/download" ".changelog/download" updateInfo.mUrl

/-- The page with the paths of the files that the application brings along. -/
def localPaths (result : String) : String :=
  replaceAll "/js/main.js" "file:///android_asset/js/main.js"
    (replaceAll "/js/jquery.min.js" "file:///android_asset/js/jquery.min.js"
      (replaceAll "/css/bootstrap.min.css" "file:///android_asset/css/bootstrap.min.css" result))

/-- What is given to the page's view, and the file afterwards. -/
structure Loaded where
  data : Option String
  changelog : Option Bytes
  deriving DecidableEq, Repr

/-- The download of a changelog. -/
def loadWithIon (server : String → Response) (updateInfo : UpdateInfo)
    (changelog : Option Bytes) : Loaded :=
  match server (changelogUrl updateInfo) with
  | .error message => ⟨message, changelog⟩
  | .ok result =>
      let result := localPaths result
      ⟨some result, some (writeToFile charset result)⟩

/-- `loadChangelog`. -/
def loadChangelog (server : String → Response) (updateInfo : UpdateInfo)
    (changelog : Option Bytes) : Loaded :=
  match changelog with
  | none => loadWithIon charset server updateInfo changelog
  | some file =>
      let s := readFromFile charset file
      if s = "" then loadWithIon charset server updateInfo changelog
      else ⟨some s, changelog⟩

/-- The page that was downloaded is shown from its file, unless nothing is read from it. -/
theorem load_changelog_again {server server' : String → Response} {updateInfo : UpdateInfo}
    {result : String} (hserver : server (changelogUrl updateInfo) = .ok result)
    (htext : ∃ c ∈ (localPaths result).toList, ¬ IsTerminator c) :
    (loadChangelog charset server' updateInfo
        (loadChangelog charset server updateInfo none).changelog).data =
      some (readFromFile charset (writeToFile charset (localPaths result))) := by
  have hne : readFromFile charset (writeToFile charset (localPaths result)) ≠ "" := by
    obtain ⟨c, hmem, hc⟩ := htext
    have hkept : c ∈ (localPaths result).toList.filter fun c => ¬ IsTerminator c :=
      List.mem_filter.2 ⟨hmem, decide_eq_true hc⟩
    rw [read_write, ne_eq, String.ofList_eq_empty_iff]
    exact List.ne_nil_of_mem hkept
  simp only [loadChangelog, loadWithIon, hserver, if_neg hne]

/-- For every string, what is read from a file that it was written to is the string if and only if
it has no line terminators. Of the pages with any other character, these are the ones that are shown
again as they were when they were downloaded. -/
theorem changelog_survives_iff :
    (∀ s, readFromFile charset (writeToFile charset s) = s ↔ ∀ c ∈ s.toList, ¬ IsTerminator c) ∧
    ∀ (server server' : String → Response) (updateInfo : UpdateInfo) (result : String),
      server (changelogUrl updateInfo) = .ok result →
      (∃ c ∈ (localPaths result).toList, ¬ IsTerminator c) →
      ((loadChangelog charset server' updateInfo
            (loadChangelog charset server updateInfo none).changelog).data =
          (loadChangelog charset server updateInfo none).data ↔
        ∀ c ∈ (localPaths result).toList, ¬ IsTerminator c) := by
  refine ⟨read_write_eq_iff charset, fun server server' updateInfo result hserver htext => ?_⟩
  rw [load_changelog_again charset hserver htext, ← read_write_eq_iff charset]
  simp only [loadChangelog, loadWithIon, hserver, Option.some.injEq]

/-- UTF-8. Other bytes than those of a string do not occur here. -/
def utf8Charset : Charset where
  encode := utf8
  decode bytes :=
    match bytes.toByteArray.utf8Decode? with
    | none => "\ufffd"
    | some cs => String.ofList cs.toList
  decode_encode s := by
    have hbytes : (utf8 s).toByteArray = s.toList.utf8Encode := rfl
    rw [hbytes, List.utf8Decode?_utf8Encode]
    exact String.ofList_toList

/-- The call of a script becomes a part of the comment in front of it. -/
theorem comment_takes_call :
    readFromFile utf8Charset (writeToFile utf8Charset "// all\nshow();\n") = "// allshow();" ∧
      readFromFile utf8Charset (writeToFile utf8Charset "// all\nshow();\n") ≠
        "// all\nshow();\n" := by
  rw [read_write]
  decide

end NamelessCenter.Items

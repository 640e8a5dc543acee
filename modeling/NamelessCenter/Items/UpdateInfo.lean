import NamelessCenter.Lib.Text

/-!
# Update descriptions

`UpdateInfo` is the part of the server's update description that the download and installation
code reads. The channel fields are only shown to the user.
-/

namespace NamelessCenter.Items

/-- An update of the server's list. -/
structure UpdateInfo where
  mName : String
  mMd5 : String
  mUrl : String
  mTimestamp : String
  deriving DecidableEq, Repr, Inhabited

/-- `getZipName`: the name of the update file. -/
def UpdateInfo.getZipName (u : UpdateInfo) : String := u.mName ++ ".zip"

/-- `new UpdateInfo(..)` with the values of an update: the constructor removes the suffix of the
name. -/
def UpdateInfo.rebuilt (u : UpdateInfo) : UpdateInfo :=
  { u with mName := Text.removeAll ".zip" u.mName }

end NamelessCenter.Items

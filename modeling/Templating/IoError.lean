/-!
# Input and output errors

The reasons for which a store or a file operation fails, with the text that is shown to the user.
-/

namespace Templating

/-- Why a store or a file operation failed. -/
inductive IoError where
  | notFound
  | notADirectory
  | isADirectory
  /-- A file is put in the place of a folder that it is in. -/
  | directoryNotEmpty
  | alreadyExists
  /-- A file is put where none can be, such as at a path that ends in a step up. -/
  | busy
  | nameTooLong
  /-- A file that has to hold text does not. -/
  | invalidText
  /-- A path that no file can have. -/
  | invalidPath
  /-- Any other reason, in its own words. -/
  | other (message : String)
  deriving DecidableEq, Repr

namespace IoError

/-- The text that is shown to the user. -/
def message : IoError → String
  | .notFound => "No such file or directory (os error 2)"
  | .notADirectory => "Not a directory (os error 20)"
  | .isADirectory => "Is a directory (os error 21)"
  | .directoryNotEmpty => "Directory not empty (os error 39)"
  | .alreadyExists => "File exists (os error 17)"
  | .busy => "Device or resource busy (os error 16)"
  | .nameTooLong => "File name too long (os error 36)"
  | .invalidText => "stream did not contain valid UTF-8"
  | .invalidPath => "file name contained an unexpected NUL byte"
  | .other message => message

/-- The name of the kind of error. -/
def kind : IoError → String
  | .notFound => "NotFound"
  | .notADirectory => "NotADirectory"
  | .isADirectory => "IsADirectory"
  | .directoryNotEmpty => "DirectoryNotEmpty"
  | .alreadyExists => "AlreadyExists"
  | .busy => "ResourceBusy"
  | .nameTooLong => "InvalidFilename"
  | .invalidText => "InvalidData"
  | .invalidPath => "InvalidInput"
  | .other _ => "Other"

end IoError

/-- The text that bytes encode in UTF-8. -/
def decodeText (bytes : ByteArray) : Except IoError String :=
  match String.fromUTF8? bytes with
  | some text => .ok text
  | none => .error .invalidText

/-- A text is read back from its bytes. -/
theorem fromUTF8?_toUTF8 (text : String) : String.fromUTF8? text.toUTF8 = some text := by
  unfold String.fromUTF8?
  split
  · rfl
  · rename_i invalid
    exact absurd text.isValidUTF8 (by simpa using invalid)

theorem decodeText_toUTF8 (text : String) : decodeText text.toUTF8 = .ok text := by
  unfold decodeText
  rw [fromUTF8?_toUTF8]

end Templating

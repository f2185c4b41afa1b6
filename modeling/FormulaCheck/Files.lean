/-!
# Access to files

The three things that the program does with files, over any monad in which they can be done, the
reasons for which one of them can fail, and what a file can hold.
-/

namespace FormulaCheck

inductive FileError
  | notFound
  | isFolder
  | notFolder
  | nameTooLong
  | nullInName
  | notText
  | other (text : String)
deriving Repr, DecidableEq, Inhabited

def FileError.message : FileError → String
  | .notFound => "No such file or directory (os error 2)"
  | .isFolder => "Is a directory (os error 21)"
  | .notFolder => "Not a directory (os error 20)"
  | .nameTooLong => "File name too long (os error 36)"
  | .nullInName => "file name contained an unexpected NUL byte"
  | .notText => "stream did not contain valid UTF-8"
  | .other text => text

/-- Bytes that are not the form of any text. -/
abbrev Undecodable := {bytes : List UInt8 // ¬ (ByteArray.mk bytes.toArray).IsValidUTF8}

inductive Content
  | text (text : String)
  | bytes (bytes : Undecodable)
deriving Repr, DecidableEq, Inhabited

namespace Content

def ofBytes (bytes : ByteArray) : Content :=
  if h : bytes.IsValidUTF8 then .text (.fromUTF8 bytes h)
  else .bytes ⟨bytes.data.toList, by rwa [Array.toArray_toList]⟩

def read : Content → Except FileError String
  | .text content => .ok content
  | .bytes _ => .error .notText

end Content

structure Files (m : Type → Type) where
  read : String → m (Except FileError String)
  write : String → String → m (Except FileError Unit)
  remove : String → m (Except FileError Unit)

end FormulaCheck

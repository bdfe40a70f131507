-- Errors. Each one is a cause; its wording is chosen in one place, `Error.message`.
import SourceMacros.Json.Scalar
import SourceMacros.Path
import SourceMacros.SyntaxFault

namespace SourceMacros

/-! ## File access -/

/-- Why a file operation failed. -/
inductive IoCause where
  | notFound
  /-- The place is taken by the file system itself. -/
  | busy
  | alreadyExists
  | notDirectory
  | isDirectory
  | nameTooLong
  | tooManyLinks
  /-- The file holds bytes that are no text. -/
  | notText
  /-- A path holds a NUL character, which no file system takes. -/
  | nulInName
  /-- A walk over a folder failed at a path. -/
  | walk (path : Path) (cause : IoCause)
  deriving DecidableEq, Repr

namespace IoCause

def message : IoCause → String
  | notFound => "No such file or directory (os error 2)"
  | busy => "Device or resource busy (os error 16)"
  | alreadyExists => "File exists (os error 17)"
  | notDirectory => "Not a directory (os error 20)"
  | isDirectory => "Is a directory (os error 21)"
  | nameTooLong => "File name too long (os error 36)"
  | tooManyLinks => "Too many levels of symbolic links (os error 40)"
  | notText => "stream did not contain valid UTF-8"
  | nulInName => "file name contained an unexpected NUL byte"
  | walk path cause => "IO error for operation on " ++ path.text ++ ": " ++ cause.message

end IoCause

/-! ## Package manifests -/

/-- A field that every entry of a manifest must have. -/
inductive EntryField where
  | name
  | keyword
  | description
  | file
  deriving DecidableEq, Repr

/-- The words for a missing field. -/
def EntryField.phrase : EntryField → String
  | name => "a name"
  | keyword => "a keyword"
  | description => "a description"
  | file => "an implementation file"

inductive ManifestCause where
  | unreadable (cause : IoCause)
  | malformed (fault : Json.Fault)
  | missingName
  | missingPackageName
  | invalidPackageName (package : String)
  | missingDescription
  | missingMacros
  | entryMissing (index : Nat) (field : EntryField)
  deriving DecidableEq, Repr

/-- What is wrong with the manifest at a path. -/
structure ManifestError where
  path : Path
  cause : ManifestCause
  deriving DecidableEq, Repr

namespace ManifestError

def message (e : ManifestError) : String :=
  let manifest := "Package manifest " ++ e.path.text
  match e.cause with
  | .unreadable cause => manifest ++ " could not be read: " ++ cause.message
  | .malformed _ => manifest ++ " is not valid JSON: "
  | .missingName => manifest ++ " is missing a name"
  | .missingPackageName => manifest ++ " is missing a package name"
  | .invalidPackageName package => manifest ++ " has an invalid package name '" ++ package ++ "'"
  | .missingDescription => manifest ++ " is missing a description"
  | .missingMacros => manifest ++ " is missing macros"
  | .entryMissing index field =>
    "Macro #" ++ toString index ++ " in package manifest " ++ e.path.text ++ " is missing " ++
      field.phrase

end ManifestError

/-! ## Resolution -/

/-- Why a reference leads to no usable definition. -/
inductive ResolutionCause where
  /-- The reference is neither a keyword nor a package and a keyword. -/
  | malformedReference
  | noBuiltinFile (dir : Path)
  | unknownBuiltin
  | noPackageDirectory (package : String)
  | noSuchEntry (package : String) (dir : Path) (keyword : String)
  | missingImplementation (file : Path)
  | unregistered
  deriving DecidableEq, Repr

namespace ResolutionCause

def message : ResolutionCause → String
  | malformedReference => "expected a keyword or `package.keyword`"
  | noBuiltinFile dir => "no built-in macro file in " ++ dir.text
  | unknownBuiltin => "no built-in macro with this name"
  | noPackageDirectory package => "no package directory named '" ++ package ++ "' was found"
  | noSuchEntry package dir keyword =>
    "package '" ++ package ++ "' at " ++ dir.text ++ " does not contain the macro '" ++ keyword ++
      "'"
  | missingImplementation file => "implementation file " ++ file.text ++ " does not exist"
  | unregistered => "no implementation is registered for this macro"

/-- The advice that goes with every failed resolution. -/
def help : String :=
  "built-in macros are bare keywords; package macros are written `package.keyword`"

end ResolutionCause

/-! ## Everything else -/

/-- A request that the tool itself refuses. -/
inductive InternalCause where
  | alreadyRegistered (key : String)
  /-- A tree of one kind where a plugin works on another. -/
  | wrongTree (found wanted : String)
  | wouldOverwrite (source : Path)
  | invalidSettings (file : Path)
  deriving DecidableEq, Repr

namespace InternalCause

def message : InternalCause → String
  | alreadyRegistered key => "Macro '" ++ key ++ "' is already registered"
  | wrongTree found wanted => "macro AST of kind " ++ found ++ " where " ++ wanted ++ " was expected"
  | wouldOverwrite source => "refusing to overwrite the source file " ++ source.text
  | invalidSettings file => "invalid config file " ++ file.text ++ ": "

end InternalCause

inductive Error where
  /-- A source text, or a use of a grammar in it, is not well-formed. -/
  | grammar (fault : SyntaxFault)
  | resolution (reference : String) (cause : ResolutionCause)
  | manifest (error : ManifestError)
  /-- The check of a parsed invocation refused it. -/
  | lint (keyword text : String)
  | io (path : Path) (cause : IoCause)
  | internal (cause : InternalCause)
  /-- The user stopped the run. -/
  | interrupted
  /-- The output extension holds a slash, so no output path can be formed. -/
  | slashInExtension
  /-- References lead through more files than the run was allowed to nest. -/
  | tooDeep
  deriving DecidableEq, Repr

namespace Error

def message : Error → String
  | grammar fault => fault.message
  | resolution reference cause => "Could not resolve " ++ reference ++ ": " ++ cause.message
  | manifest error => error.message
  | lint keyword text => "Lint failure in macro '" ++ keyword ++ "': " ++ text
  | io path cause => "I/O error on " ++ path.text ++ ": " ++ cause.message
  | internal cause => "Internal error: " ++ cause.message
  | interrupted => "Interrupted"
  | slashInExtension => "extension cannot contain path separators"
  | tooDeep => "references are nested too deeply"

/-- The diagnostic code of an error. -/
def code : Error → String
  | grammar _ => "makros::syntax"
  | resolution _ _ => "makros::resolution"
  | manifest _ => "makros::manifest"
  | lint _ _ => "makros::lint"
  | io _ _ => "makros::io"
  | internal _ => "makros::internal"
  | interrupted => "makros::interrupted"
  | slashInExtension => "makros::internal"
  | tooDeep => "makros::internal"

/-- The error of a run that the user stopped. -/
def isInterrupt : Error → Bool
  | interrupted => true
  | _ => false

end Error

end SourceMacros

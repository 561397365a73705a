namespace MethodExtraction.Files

inductive IoError where
  | notFound
  | alreadyExists
  | notADirectory
  | isADirectory
  | noSpace
  | nameTooLong
  | linkLoop
  | nulInPath
  | outOfMemory
  | nothingWritten
  | other (text : String)
  deriving DecidableEq, Inhabited, Repr

def IoError.text : IoError → String
  | .notFound => "No such file or directory (os error 2)"
  | .alreadyExists => "File exists (os error 17)"
  | .notADirectory => "Not a directory (os error 20)"
  | .isADirectory => "Is a directory (os error 21)"
  | .noSpace => "No space left on device (os error 28)"
  | .nameTooLong => "File name too long (os error 36)"
  | .linkLoop => "Too many levels of symbolic links (os error 40)"
  | .nulInPath => "file name contained an unexpected NUL byte"
  | .outOfMemory => "out of memory"
  | .nothingWritten => "failed to write whole buffer"
  | .other text => text

end MethodExtraction.Files

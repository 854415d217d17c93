-- The places that a text can name in a file system.

namespace JsonModel

/-- Which texts are paths of files, and which of directories. -/
structure Places where
  isFile : String → Bool
  isDirectory : String → Bool

end JsonModel

import Ragged.Storage.Arena
import Ragged.Type.Error

/-!
# Why no array can be built

A construction stops at its first error. The errors are causes: each constructor holds what was
found, and `message` is the only place with words. `category` is the coarse sorting that messages
begin with.
-/

set_option autoImplicit false

namespace Ragged

/-- How many elements there were where a number of them was wanted. Of a lazy source only so many
are taken as tell that it has too many. -/
inductive Count where
  | exactly (n : Nat)
  | atLeast (n : Nat)
deriving DecidableEq, Repr, Inhabited

def Count.render : Count → String
  | .exactly n => toString n
  | .atLeast n => "at least " ++ toString n

/-- The nesting of the value does not fit dimensions. -/
inductive ShapeFault where
  | mappingAsDimension (depth : Nat)
  | scalarAsDimension (depth : Nat) (found : String)
  | leavesApart (first second : Nat)
  | leafAmongContainers (depth : Nat)
  | containerAmongLeaves (depth : Nat)
  /-- Containers of different lengths at a dimension that must have one extent. -/
  | stridedIrregular (depth min max : Nat)
  /-- Elements where a scalar of the given leaf type is wanted. -/
  | elementsAsScalar (leaf found : String)
deriving DecidableEq, Repr, Inhabited

def ShapeFault.message : ShapeFault → String
  | .mappingAsDimension d => "a mapping cannot be used as dimension " ++ toString d
  | .scalarAsDimension d found =>
    "expected a sequence for dimension " ++ toString d ++ ", found " ++ found ++ " scalar"
  | .leavesApart d e =>
    "inconsistent nesting: found leaves at depths " ++ toString d ++ " and " ++ toString e
  | .leafAmongContainers d =>
    "inconsistent nesting: found a leaf at depth " ++ toString d ++ " where containers were found"
  | .containerAmongLeaves d =>
    "inconsistent nesting: found a container at depth " ++ toString d ++ " where leaves were found"
  | .stridedIrregular d lo hi =>
    "strided dimension " ++ toString d ++ " requires a uniform extent, found lengths "
      ++ toString lo ++ " to " ++ toString hi
  | .elementsAsScalar leaf found => "expected a " ++ leaf ++ " scalar, found a " ++ found

/-- A leaf has no place in the leaf type, or leaves have no type in common. -/
inductive TypeFault where
  | leavesDiffer (first second : String)
  /-- A scalar that the target cannot represent: its type, its text and the target. -/
  | lossy (type shown target : String)
  | scalarAsRecord (struct found : String)
  | mappingAsScalar (leaf : String)
  | integersTooWide (min max : Int)
  | notAscii (text : String)
  /-- More code units than a string type has room for; the text is shown in quotes. -/
  | textTooLong (text : String) (units width : Nat)
  | fieldInferredTwice (name : String)
deriving DecidableEq, Repr, Inhabited

def TypeFault.message : TypeFault → String
  | .leavesDiffer a b => "cannot unify " ++ a ++ " and " ++ b ++ " leaves"
  | .lossy type shown target =>
    "cannot convert " ++ type ++ " " ++ shown ++ " to " ++ target ++ " without loss"
  | .scalarAsRecord struct found =>
    "expected a record for struct " ++ struct ++ ", found " ++ found ++ " scalar"
  | .mappingAsScalar leaf => "expected a " ++ leaf ++ " scalar, found a mapping"
  | .integersTooWide lo hi =>
    "integers in range " ++ toString lo ++ "..=" ++ toString hi
      ++ " do not fit any 64-bit integer type"
  | .notAscii text => "string " ++ text ++ " is not ASCII"
  | .textTooLong text units width =>
    "string " ++ text ++ " has " ++ toString units ++ " code units, more than the fixed width of "
      ++ toString width
  | .fieldInferredTwice name => "duplicate inferred field '" ++ name ++ "'"

/-- A source that cannot be used where it stands. -/
inductive SourceFault where
  | null
  /-- The extent of a strided dimension must be known beforehand, which that of an iterator is not.
  -/
  | stridedIterator (depth : Nat)
deriving DecidableEq, Repr, Inhabited

def SourceFault.message : SourceFault → String
  | .null => "null has no array element type"
  | .stridedIterator d =>
    "strided dimension " ++ toString d ++ " cannot be sourced from an iterator"

inductive FileFault where
  | notFound
  | isDirectory
deriving DecidableEq, Repr, Inhabited

def FileFault.message : FileFault → String
  | .notFound => "No such file or directory (os error 2)"
  | .isDirectory => "Is a directory (os error 21)"

/-- What is wrong with a configuration. -/
inductive ConfigFault where
  /-- No document of settings, or a setting of the wrong name or type. -/
  | malformed
  | unreadable (path : String) (cause : FileFault)
  | defaultLeaf (text : String) (cause : ParseError)
  | structAsDefaultLeaf
  /-- A growth factor that does not make regions grow, as its text. -/
  | growthFactor (shown : String)
deriving DecidableEq, Repr, Inhabited

def ConfigFault.message : ConfigFault → String
  | .malformed => "invalid configuration"
  | .unreadable path cause => "cannot read " ++ path ++ ": " ++ cause.message
  | .defaultLeaf text cause => "default_leaf '" ++ text ++ "': " ++ cause.message
  | .structAsDefaultLeaf => "default_leaf must be a scalar or string type"
  | .growthFactor shown => "growth_factor must be greater than 1.0, got " ++ shown

/-- Stored blocks that do not fit the type they are read at. -/
inductive LayoutFault where
  /-- A block of another form where one of the given form is wanted. -/
  | wrongBlock (expected found : String)
  | notVar
  | missingRow (cell : Nat)
  | missingElement (region : RegionId) (cell : Nat)
  | missingField (index : Nat) (struct : String)
  | notLeaf
  | invalidText (encoding : String)
deriving DecidableEq, Repr, Inhabited

def LayoutFault.message : LayoutFault → String
  | .wrongBlock expected found =>
    "expected a " ++ expected ++ " block, found a " ++ found ++ " block"
  | .notVar => "expected a var block"
  | .missingRow cell => "missing var row " ++ toString cell
  | .missingElement region cell =>
    "region " ++ region.render ++ " has no element " ++ toString cell
  | .missingField index struct => "missing field " ++ toString index ++ " of " ++ struct
  | .notLeaf => "block does not match the leaf type"
  | .invalidText encoding => "stored " ++ encoding ++ " string is not valid"

/-- Why a construction stopped. -/
inductive BuildError where
  | tooFew (depth expected found : Nat)
  | tooMany (depth expected : Nat) (found : Count)
  | shape (fault : ShapeFault)
  | undeclaredField (key struct : String)
  | missingField (field struct : String)
  /-- A record by position has not as many elements as there are fields. -/
  | fieldCount (struct : String) (expected : Nat) (found : Count)
  | noSuchField (field type : String)
  | type (fault : TypeFault)
  | source (fault : SourceFault)
  | parse (error : ParseError)
  | config (fault : ConfigFault)
  | storage (error : StorageError)
  | layout (fault : LayoutFault)
deriving DecidableEq, Repr, Inhabited

inductive ErrorCategory where
  | shapeMismatch
  | fieldMismatch
  | typeUnification
  | unsupportedSource
  | parse
  | config
  | storage
deriving DecidableEq, Repr, Inhabited

namespace BuildError

def category : BuildError → ErrorCategory
  | .tooFew .. | .tooMany .. | .shape _ => .shapeMismatch
  | .undeclaredField .. | .missingField .. | .fieldCount .. | .noSuchField .. => .fieldMismatch
  | .type _ => .typeUnification
  | .source _ => .unsupportedSource
  | .parse _ => .parse
  | .config _ => .config
  | .storage _ | .layout _ => .storage

/-- What messages of a category begin with. -/
def heading : ErrorCategory → String
  | .shapeMismatch => "BroadcastError"
  | .fieldMismatch => "FieldMismatchError"
  | .typeUnification => "TypeUnificationError"
  | .unsupportedSource => "UnsupportedSourceError"
  | .parse => "ParseError"
  | .config => "ConfigError"
  | .storage => "StorageError"

/-- The words of an error behind its heading. -/
def detail : BuildError → String
  | .tooFew depth expected found =>
    "too few elements at dimension " ++ toString depth ++ ": expected " ++ toString expected
      ++ ", found " ++ toString found
  | .tooMany depth expected found =>
    "too many elements at dimension " ++ toString depth ++ ": expected " ++ toString expected
      ++ ", found " ++ found.render
  | .shape fault => fault.message
  | .undeclaredField key struct =>
    "input mapping has key '" ++ key ++ "' but struct " ++ struct ++ " has no such field"
  | .missingField field struct =>
    "input mapping is missing field '" ++ field ++ "' of struct " ++ struct
  | .fieldCount struct expected found =>
    "struct " ++ struct ++ " has " ++ toString expected ++ " fields, record has " ++ found.render
  | .noSuchField field owner => "type " ++ owner ++ " has no field '" ++ field ++ "'"
  | .type fault => fault.message
  | .source fault => fault.message
  | .parse error => error.message
  | .config fault => fault.message
  | .storage error => error.message
  | .layout fault => "corrupt layout: " ++ fault.message

def message (e : BuildError) : String := heading e.category ++ ": " ++ e.detail

end BuildError

end Ragged

import RootedFS.Text.Quoted

/-!
# Faults

Every way in which a call can fail, by its cause. A refusal carries an error number and the paths
it is about, spelt as the caller or the host spelt them; the other faults say what the caller did
wrong. The wording of each fault is fixed here and nowhere else.

## Main definitions

* `Refusal`: why a filesystem refuses a call, with `Refusal.number` and `Refusal.message`
* `Fault`: any failure of a call, with `Fault.message`
* `FaultKind`, `Fault.kind`: the classes that callers tell apart
-/

namespace RootedFS

/-- Why a filesystem refuses a call. -/
inductive Refusal where
  | missing
  /-- Nothing is at the path any more. -/
  | gone
  | present
  /-- All names tried for a temporary file are taken. -/
  | noFreeName
  /-- The path leads through something that is not a directory, or a directory was wanted. -/
  | notDirectory
  | isDirectory
  | notEmpty
  | renameRoot
  | removeRoot
  | busy
  | intoItself
  | invalid
  | nameTooLong
  | linkLoop
  /-- The descriptor does not allow the access. -/
  | badDescriptor
  /-- The position lies outside the file's data. -/
  | outsideData
  | fileTooLarge
  /-- The permissions of the file do not let the caller have the access. -/
  | forbidden
  /-- The path holds a null character, so that it is none. -/
  | embeddedNull
  /-- The number of seconds is too large for a calendar to be asked about it. -/
  | valueTooLarge
  /-- The device failed, with a report of its own. -/
  | device (report : String)
deriving DecidableEq, Repr

namespace Refusal

/-- The error number of a refusal; what is no path is refused before there is one. -/
def number : Refusal → Nat
  | embeddedNull => 0
  | missing | gone => 2
  | device _ => 5
  | outsideData => 6
  | badDescriptor => 9
  | forbidden => 13
  | renameRoot | removeRoot | busy => 16
  | present | noFreeName => 17
  | notDirectory => 20
  | isDirectory => 21
  | intoItself | invalid => 22
  | fileTooLarge => 27
  | nameTooLong => 36
  | notEmpty => 39
  | linkLoop => 40
  | valueTooLarge => 75

/-- The text of a refusal. -/
def message : Refusal → String
  | missing => "No such file or directory"
  | gone => "gone"
  | present => "File exists"
  | noFreeName => "No usable temporary file name found"
  | notDirectory => "Not a directory"
  | isDirectory => "Is a directory"
  | notEmpty => "Directory not empty"
  | renameRoot => "Cannot rename root"
  | removeRoot => "Cannot remove root"
  | busy => "Device or resource busy"
  | intoItself => "Cannot move a directory into itself"
  | invalid => "Invalid argument"
  | nameTooLong => "File name too long"
  | linkLoop => "Too many levels of symbolic links"
  | badDescriptor => "Bad file descriptor"
  | outsideData => "No such device or address"
  | fileTooLarge => "File too large"
  | forbidden => "Permission denied"
  | embeddedNull => "embedded null byte"
  | valueTooLarge => "Value too large for defined data type"
  | device report => report

end Refusal

/-- The calls on an open stream that find it closed. -/
inductive StreamCall where
  | read
  | write
  | seek
  | truncate
  /-- Handing pending bytes on. -/
  | flush
  /-- Handing on, where nothing can be pending. -/
  | settle
  /-- Asking for the position or the access. -/
  | inspect
deriving DecidableEq, Repr

/-- The text of the failure of a call on a closed stream. -/
def StreamCall.closedMessage : StreamCall → String
  | read => "read of closed file"
  | write => "write to closed file"
  | seek => "seek of closed file"
  | truncate => "truncate of closed file"
  | flush => "flush of closed file"
  | settle => "I/O operation on closed file."
  | inspect => "I/O operation on closed file"

/-- The accesses that a handle may lack. -/
inductive Access where
  | read
  | write
  | truncate
  | seek
deriving DecidableEq, Repr

/-- The text of a failure by a lack of access. -/
def Access.message : Access → String
  | read => "read"
  | write => "write"
  | truncate => "truncate"
  | seek => "File or stream is not seekable."

/-- The ranges that a number can fall out of. -/
inductive NumberRange where
  /-- Sizes and counts. -/
  | index
  /-- Signed sizes: the offset of a seek in memory. -/
  | signedSize
  /-- Thirty-two bits: flags, permissions, the origin of a seek. -/
  | int
  /-- Sixty-four bits: the size of a host file. -/
  | long
  /-- Positions that a relative seek reaches. -/
  | position
  /-- Sizes that a buffer can grow to. -/
  | buffer
  | bytes
  | unsigned
  | unsignedLong
  | mode
  /-- The years that a calendar has. -/
  | date
deriving DecidableEq, Repr

/-- The text of a failure by a number out of range. -/
def NumberRange.message : NumberRange → String
  | index => "cannot fit 'int' into an index-sized integer"
  | signedSize => "Python int too large to convert to C ssize_t"
  | int => "Python int too large to convert to C int"
  | long => "Python int too large to convert to C long"
  | position => "new position too large"
  | buffer => "new buffer size too large"
  | bytes => "byte string is too large"
  | unsigned => "can't convert negative value to unsigned int"
  | unsignedLong => "Python int too large to convert to C unsigned long"
  | mode => "mode out of range"
  | date => "date value out of range"

/-- Any failure of a call. -/
inductive Fault where
  /-- The filesystem refuses; the paths are those that the report names. -/
  | refused (why : Refusal) (path path2 : Option String)
  | symlinksUnsupported
  /-- A filesystem of some type does not know an operation at all. -/
  | noOperation (typeName operation : String)
  /-- Looking the path up failed, without an error number. -/
  | lookup (path : String)
  /-- An entry that has to be under a key is not there. -/
  | noEntry (key : String)
  /-- The handle on an in-memory file is closed. -/
  | closedHandle (name : String)
  /-- The stream on a host file is closed. -/
  | closedStream (call : StreamCall)
  | unsupported (access : Access)
  | outOfRange (range : NumberRange)
  /-- The offset of a seek on the host does not fit. -/
  | offsetOutOfRange
  /-- A seek from the start with a negative offset. -/
  | negativeSeek (offset : Int)
  | negativeSize (size : Int)
  /-- A negative count of bytes to read from the host, other than minus one. -/
  | negativeCount
  /-- An unknown origin of a seek in memory. -/
  | unknownOrigin (origin : Int)
  /-- An unknown origin of a seek on the host. -/
  | unsupportedOrigin (origin : Int)
  | outOfMemory
  /-- The length of a byte string that is asked for wraps to a negative number. -/
  | wrappedLength
  /-- An element of a path, counted from zero, is of a type other than text. -/
  | elementType (place : Nat) (typeName : String)
  /-- The root of a host filesystem is of a type other than text. -/
  | rootType (typeName : String)
  | relativeRoot (root : String)
  | rootNotDirectory (root : String)
  /-- The root of a host filesystem leads into a loop of symbolic links. -/
  | rootLoop (root : String)
  /-- Settings that the kind of filesystem does not know. -/
  | unexpectedSettings (kind : String) (names : List String)
  | rootRequired
  /-- A text that is to be a path of the host holds a null character. -/
  | nullInPath
  /-- A time lies in a year that a calendar does not have. -/
  | yearOutOfRange (year : Int)
  | unknownKind (kind : String)
  /-- A value that is no configuration, by its description. -/
  | unknownConfiguration (description : String)
  /-- A call leads back to itself, so that there is no end to it. -/
  | endless
deriving DecidableEq, Repr

/-- The classes of faults that callers tell apart. -/
inductive FaultKind where
  | missing
  | present
  | notDirectory
  | isDirectory
  | permission
  | refusal
  | unsupported
  | noSymlinks
  | lookup
  | value
  | overflow
  | loop
  | memory
  | wrapped
  | type
  | noOperation
  | nesting
deriving DecidableEq, Repr

/-- The class of a refusal. -/
def Refusal.kind (why : Refusal) : FaultKind :=
  match why.number with
  | 0 => .value
  | 2 => .missing
  | 13 => .permission
  | 17 => .present
  | 20 => .notDirectory
  | 21 => .isDirectory
  | _ => .refusal

namespace Fault

/-- The class of a fault. -/
def kind : Fault → FaultKind
  | refused why _ _ => why.kind
  | symlinksUnsupported => .noSymlinks
  | lookup _ | noEntry _ => .lookup
  | unsupported _ => .unsupported
  | outOfRange _ => .overflow
  | outOfMemory => .memory
  | wrappedLength => .wrapped
  | elementType .. | rootType _ => .type
  | noOperation .. => .noOperation
  | rootLoop _ => .loop
  | endless => .nesting
  | closedHandle _ | closedStream _ | offsetOutOfRange | negativeSeek _ | negativeSize _
  | negativeCount | unknownOrigin _ | unsupportedOrigin _ | relativeRoot _ | rootNotDirectory _
  | unexpectedSettings _ _ | rootRequired | nullInPath | yearOutOfRange _ | unknownKind _
  | unknownConfiguration _ => .value

/-- The text of a fault. -/
def message : Fault → String
  | refused why _ _ => why.message
  | symlinksUnsupported => "symlink not supported"
  | lookup path => path
  | noEntry key => Text.quote key
  | closedHandle name => "I/O operation on closed file: " ++ name
  | closedStream call => call.closedMessage
  | unsupported access => access.message
  | outOfRange range => range.message
  | offsetOutOfRange => "cannot fit 'int' into an offset-sized integer"
  | negativeSeek offset => "negative seek value " ++ toString offset
  | negativeSize size => "negative size value " ++ toString size
  | negativeCount => "read length must be non-negative or -1"
  | unknownOrigin origin => "invalid whence (" ++ toString origin ++ ", should be 0, 1 or 2)"
  | unsupportedOrigin origin => "whence value " ++ toString origin ++ " unsupported"
  | outOfMemory => ""
  | wrappedLength => "Negative size passed to PyBytes_FromStringAndSize"
  | elementType place typeName =>
    "sequence item " ++ toString place ++ ": expected str instance, " ++ typeName ++ " found"
  | rootType typeName => "expected str, bytes or os.PathLike object, not " ++ typeName
  | noOperation typeName operation =>
    "'" ++ typeName ++ "' object has no attribute '" ++ operation ++ "'"
  | relativeRoot root => "Root must be absolute path: " ++ root
  | rootNotDirectory root => "Root must be a directory: " ++ root
  | rootLoop root => "Symlink loop from " ++ Text.quote root
  | unexpectedSettings kind names =>
    "Unexpected arguments for " ++ kind ++ " fs: " ++ Text.quoteList names
  | rootRequired => "OS filesystem requires 'root' parameter"
  | nullInPath => Refusal.embeddedNull.message
  | yearOutOfRange year => "year " ++ toString year ++ " is out of range"
  | unknownKind kind =>
    "Unsupported filesystem type: " ++ kind ++ ". Use 'memory' or 'os'."
  | unknownConfiguration description => "Unsupported filesystem config: " ++ description
  | endless => "maximum recursion depth exceeded while calling a Python object"

/-- A refusal that names one path. -/
def onPath (why : Refusal) (path : String) : Fault :=
  refused why (some path) none

/-- A refusal that names two paths. -/
def onPaths (why : Refusal) (path path2 : String) : Fault :=
  refused why (some path) (some path2)

/-- A refusal that names no path. -/
def unnamed (why : Refusal) : Fault :=
  refused why none none

/-- A refusal of a text that is to be a path, which names it if it is one. -/
def forPath (why : Refusal) (path : String) : Fault :=
  match why with
  | .embeddedNull => nullInPath
  | why => onPath why path

/-- A refusal of two texts that are to be paths, which names them if they are. -/
def forPaths (why : Refusal) (path path2 : String) : Fault :=
  match why with
  | .embeddedNull => nullInPath
  | why => onPaths why path path2

@[simp] theorem kind_forPath (why : Refusal) (path : String) :
    (forPath why path).kind = why.kind := by
  cases why <;> rfl

/-- Whether a fault is an error of the filesystem or of a handle's access, as opposed to a wrong
argument or a missing capability. -/
def isFilesystemError (f : Fault) : Bool :=
  match f with
  | refused .. | unsupported _ => true
  | _ => false

end Fault

end RootedFS

import Canyon.Fs.Mount
import Canyon.Fs.Names
import Canyon.Lib.KeyTree

/-!
# The virtual file system

`VFS`: a tree of directory entries in memory over a `CAFS`. The tree is built when the device is
mounted; `create` adds an entry to it, and every call finds its inode by a walk along names. The
pointers of an entry to its parent and to the file system are not used by any call.
-/

namespace Canyon.Fs

open Canyon.Lib
open EStateM (Result)

/-- What a `DirEntry` keeps of its inode. -/
structure Dentry where
  /-- `inode_type`. -/
  inodeType : InodeType
  /-- `inode_number`. -/
  inodeNumber : Nat
  deriving DecidableEq

/-- `DirEntry`: its key is `name`, its children are `subdirs`. -/
abbrev DirEntry := KeyTree String Dentry

/-- `crate::Error`. -/
inductive Error where
  /-- `NotExist(name)`. -/
  | notExist (name : String)
  /-- `RunOutOfInode`. -/
  | runOutOfInode
  deriving DecidableEq

/-- `VFS::find_dentry`. -/
def findDentry (root : DirEntry) (dirs : List String) : Except Error DirEntry :=
  (root.walk dirs).mapError Error.notExist

/-- `DirEntry::new`; the handle on the inode is dropped when it returns. -/
def newDentry (fs : Cafs) (inodeNumber : Nat) : FsM DirEntry := do
  let pointer ← fs.inode inodeNumber
  let inode ← deref pointer
  dropHandle pointer
  return .node (nameString inode.name) ⟨inode.type, inodeNumber⟩ []

/-- The loop of `DirEntry::read_sub_dentry` over inode numbers. -/
def readDentries (read : Nat → FsM DirEntry) : List Nat → FsM (List DirEntry)
  | [] => return []
  | inodeNumber :: rest => do
    let dentry ← read inodeNumber
    return dentry :: (← readDentries read rest)

/-- `DirEntry::read_sub_dentry`, on a stack with room for a number of calls: the entries that it
pushes to `subdirs`. -/
def readSubDentry (fs : Cafs) : Nat → Nat → FsM (List DirEntry)
  | 0, _ => onBlocks (.fail .stackOverflow)
  | depth + 1, inodeNumber => do
    let subInodes ← fs.subInodes inodeNumber
    readDentries (fun inodeNumber => do
      let dentry ← newDentry fs inodeNumber
      return .node dentry.key dentry.value (← readSubDentry fs depth inodeNumber)) subInodes

/-- The root of the tree that `VFS::new` builds. -/
def newRoot (fs : Cafs) (depth : Nat) : FsM DirEntry := do
  let dentry ← newDentry fs 0
  return .node dentry.key dentry.value (← readSubDentry fs depth 0)

/-- `VFS`. -/
structure Vfs where
  /-- `primary_partition`. -/
  session : Session
  /-- `dentry_cache`. -/
  root : DirEntry

/-- `VFS::parse_path` in a call. -/
def parsed (path : String) : FsM Path :=
  match parsePath path with
  | some path => return path
  | none => onBlocks (.fail .unwrapNone)

/-- What a call returns in `Ok`. -/
inductive Reply where
  /-- Nothing. -/
  | done
  /-- Contents of a file. -/
  | contents (bytes : List UInt8)
  deriving DecidableEq

/-- A call on the virtual file system. -/
inductive VfsCall where
  /-- `create(path)`. -/
  | create (path : String)
  /-- `write(path, contents)`. -/
  | write (path : String) (contents : List UInt8)
  /-- `read_unstable(path)`. -/
  | readUnstable (path : String)
  deriving DecidableEq

/-- The path of a call. -/
def VfsCall.path : VfsCall → String
  | .create path => path
  | .write path _ => path
  | .readUnstable path => path

/-- The names that a call looks up: `create` looks for the directory only. -/
def VfsCall.searched (path : Path) : VfsCall → List String
  | .create _ => path.parents
  | .write _ _ => path.components
  | .readUnstable _ => path.components

/-- The call as a program, with the tree that it leaves. -/
def VfsCall.run (fs : Cafs) (root : DirEntry) : VfsCall → FsM (Except Error Reply × DirEntry)
  | .create path => do
    let path ← parsed path
    match findDentry root path.parents with
    | .error error => return (.error error, root)
    | .ok dir =>
      let inode ← fs.create dir.value.inodeNumber path.name
      let dentry ← newDentry fs (← deref inode).inodeNumber
      dropHandle inode
      return (.ok .done, dentry.graft path.parents root)
  | .write path contents => do
    let path ← parsed path
    match findDentry root path.components with
    | .error error => return (.error error, root)
    | .ok dentry =>
      fs.write dentry.value.inodeNumber contents
      return (.ok .done, root)
  | .readUnstable path => do
    let path ← parsed path
    match findDentry root path.components with
    | .error error => return (.error error, root)
    | .ok dentry =>
      let pointer ← fs.inode dentry.value.inodeNumber
      let inode ← deref pointer
      let data ← onBlocks inode.data
      dropHandle pointer
      return (.ok (.contents data), root)

namespace Vfs

/-- `VFS::new`. -/
def new (depth : Nat) (device : Disk) : Option Vfs :=
  match Session.mount device with
  | none => none
  | some session =>
    match session.exec (newRoot session.fs depth) with
    | .ok root session => some ⟨session, root⟩
    | .error _ _ => none

/-- Run a call. -/
def exec (vfs : Vfs) (call : VfsCall) : Result Panic Vfs (Except Error Reply) :=
  match vfs.session.exec (call.run vfs.session.fs vfs.root) with
  | .ok (reply, root) session => .ok reply ⟨session, root⟩
  | .error error session => .error error { vfs with session }

/-- Flush, and mount the device again. -/
def remount (depth : Nat) (vfs : Vfs) : Option Vfs :=
  match vfs.session.exec vfs.session.fs.flush with
  | .ok _ session => new depth session.manager.device
  | .error _ _ => none

end Vfs

end Canyon.Fs

import EosUpdater.Util.Error

/-!
# Checkpoints

`checkpoint.c` of `libeos-updater-util`: whether the system may follow a checkpoint to another
branch.
-/

namespace Euu

/-- `EuuCheckpointBlock`: why a checkpoint is not followed. -/
inductive CheckpointBlock
  | forced
  | nvmeRemap
deriving DecidableEq, Repr

/-- `GFileInfo`, as far as the code looks at it. -/
structure FileInfo where
  name : String
  isSymlink : Bool
deriving DecidableEq, Repr

/-- What the code reads of the system: the variable `EOS_UPDATER_FORCE_FOLLOW_CHECKPOINT` of its
environment, and the directory of the driver `intel-nvme-remap`, whose enumeration can fail at the
start or at any entry. -/
structure Platform where
  forceFollowCheckpoint : Option String
  nvmeRemapDriver : Except GError (List (Except GError FileInfo))

/-- The loop of `is_nvme_remap_in_use`. -/
def isNvmeRemapDevice : List (Except GError FileInfo) → Bool
  | [] => false
  -- the driver is there and something went wrong: assume that it is in use
  | .error _ :: _ => true
  | .ok info :: infos =>
      if info.isSymlink ∧ "0000:".toList <+: info.name.toList then true
      else isNvmeRemapDevice infos

/-- `is_nvme_remap_in_use`. -/
def isNvmeRemapInUse (platform : Platform) : Bool :=
  match platform.nvmeRemapDriver with
  | .error _ => false
  | .ok infos => isNvmeRemapDevice infos

/-- `euu_should_follow_checkpoint`, whose errors all are blocks. The refs are only logged. -/
def shouldFollowCheckpoint (platform : Platform) (_bootedRef _targetRef : String) :
    Except CheckpointBlock Unit :=
  if platform.forceFollowCheckpoint = some "1" then .ok ()
  else if platform.forceFollowCheckpoint = some "0" then .error .forced
  else if isNvmeRemapInUse platform then .error .nvmeRemap
  else .ok ()

end Euu

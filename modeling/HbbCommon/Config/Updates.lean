import HbbCommon.Base.TSys
import HbbCommon.Config.Logic.Passphrase

/-!
# Concurrent updates

A call runs from one critical section to the next, and between two of them other calls run
theirs. What a call does outside of its sections is done with the section that follows.
-/

namespace HbbCommon.Config

open HbbCommon.Base

/-! ## Updates of a list -/

/-- A list with what may be done to it. -/
structure Updates (α : Type) extends DeviceList α where
  key : α → Bytes
  withEntry : α → List α → List α
  without : List Bytes → List α → List α

def deviceUpdates (libs : ConfigLibs) : Updates TrustedDevice where
  toDeviceList := trustedDevices libs
  key device := device.hwid
  withEntry := withDevice
  without := withoutDevices

def viewerUpdates (libs : ConfigLibs) : Updates PairedViewer where
  toDeviceList := pairedViewers libs
  key viewer := viewer.signPk
  withEntry := withViewer
  without := withoutViewers

inductive ListOp (α : Type)
  | add (entry : α)
  | remove (keys : List Bytes)

def ListOp.change {α : Type} (u : Updates α) : ListOp α → List α → List α
  | .add entry => u.withEntry entry
  | .remove keys => u.without keys

/-- The section that a call comes to next. -/
inductive Stage (α : Type)
  | start
  /-- the cache is not synced: the configuration is read -/
  | reading
  /-- some entries were outdated: the others are stored -/
  | saving (kept : List α)
  | caching (kept : List α)
  /-- the list that was read is changed and stored -/
  | writing (list : List α)

/-- One section of a call, and the stage it comes to unless it returns. -/
def Stage.next {α : Type} (u : Updates α) (crypt : Crypt) (now : Int64) (nonce : Nat)
    (op : ListOp α) : Stage α → Statics → Option (Stage α) × Statics
  | .start, s => (some (if (u.cache s).2 then .writing (u.cache s).1 else .reading), s)
  | .reading, s =>
      match u.read crypt s.config2 with
      | none => (some (.writing []), s)
      | some (list, store) =>
          let kept := u.keep now list
          (some (if store ∨ kept.length ≠ list.length then .saving kept else .caching kept), s)
  | .saving kept, s => (some (.caching kept), u.set crypt now nonce kept s)
  | .caching kept, s => (some (.writing kept), u.setCache (kept, true) s)
  | .writing list, s => (none, u.set crypt now nonce (op.change u list) s)

/-- The rest of a call that runs alone; the nonces are those of its two stores. -/
def Stage.finish {α : Type} (u : Updates α) (crypt : Crypt) (now : Int64) (nonces : Nat → Nat)
    (op : ListOp α) : Nat → Stage α → Statics → Statics
  | 0, _, s => s
  | fuel + 1, stage, s =>
      let nonce := match stage with | .writing _ => nonces 1 | _ => nonces 0
      match stage.next u crypt now nonce op s with
      | (some stage, s) => Stage.finish u crypt now nonces op fuel stage s
      | (none, s) => s

/-- The sections of a call that runs alone are the whole call. -/
theorem finish_start {α : Type} (libs : ConfigLibs) (u : Updates α) (now : Int64)
    (nonces : Nat → Nat) (op : ListOp α) (s : Statics) :
    Stage.finish u libs.crypt now nonces op 5 .start s =
      u.toDeviceList.update libs now nonces (op.change u) s := by
  unfold DeviceList.update DeviceList.get
  by_cases hsynced : (u.cache s).2 = true
  · simp [Stage.finish, Stage.next, hsynced]
  · cases hread : u.read libs.crypt s.config2 with
    | none => simp [Stage.finish, Stage.next, hsynced, hread]
    | some read =>
        obtain ⟨list, store⟩ := read
        by_cases hstore : store = true ∨ (u.keep now list).length ≠ list.length
        · simp only [Stage.finish, Stage.next, hsynced, hread, if_pos hstore, if_false,
            Bool.false_eq_true]
        · simp only [Stage.finish, Stage.next, hsynced, hread, if_neg hstore, if_false,
            Bool.false_eq_true]

/-! ## What is revoked -/

/-- What is said of the calls on a list: an addition begins, and a revocation returns. -/
inductive Event (α : Type)
  | began (entry : α)
  /-- the entries with these keys are removed -/
  | revoked (keys : List Bytes)
  /-- these entries are cleared -/
  | cleared (entries : List α)
  deriving DecidableEq

/-- Keys are compared byte by byte. -/
theorem lawfulBEq_keys : LawfulBEq Bytes := inferInstance

def Event.revokes {α : Type} [DecidableEq α] (key : α → Bytes) : Event α → α → Bool
  | .began _, _ => false
  | .revoked keys, entry =>
      haveI := lawfulBEq_keys
      decide (key entry ∈ keys)
  | .cleared entries, entry => entry ∈ entries

/-- What a call says when it returns. -/
def ListOp.returned {α : Type} : ListOp α → List (Event α)
  | .add _ => []
  | .remove keys => [.revoked keys]

/-- The entries that a call may still bring into the list. -/
def ListOp.pending {α : Type} (u : Updates α) (op : ListOp α) (stage : Stage α) : List α :=
  (match op with
    | .add entry => [entry]
    | .remove _ => []) ++
  match stage with
  | .start | .reading => []
  | .saving kept | .caching kept => kept
  | .writing list => op.change u list

/-- The decrypted list in a configuration. -/
def DeviceList.storedEntries {α : Type} (l : DeviceList α) (crypt : Crypt) (config : Config2) :
    List α :=
  match l.read crypt config with
  | some (list, _) => list
  | none => []

/-! ## The system -/

/-- A call that has not returned. -/
inductive Task
  | device (op : ListOp TrustedDevice) (stage : Stage TrustedDevice)
  | viewer (op : ListOp PairedViewer) (stage : Stage PairedViewer)
  | setOption (k v : String)
  /-- with the options it has read -/
  | setOptions (v : OptionMap) (previous : Option OptionMap)

structure Updating where
  statics : Statics
  tasks : OrdMap Nat Task
  devices : List (Event TrustedDevice)
  viewers : List (Event PairedViewer)

/-- A call begins, or runs its next section. -/
inductive Action
  | addTrustedDevice (id : Nat) (device : TrustedDevice)
  | removeTrustedDevices (id : Nat) (hwids : List Bytes)
  | addPairedViewer (id : Nat) (viewer : PairedViewer)
  | removePairedViewers (id : Nat) (signPks : List Bytes)
  | setOption (id : Nat) (k v : String)
  | setOptions (id : Nat) (v : OptionMap)
  | runs (id : Nat) (now : Int64) (nonces : String → Nat)

namespace Updating

variable (libs : ConfigLibs) (settings : Settings)

def call (id : Nat) (task : Task) (s : Updating) : Option Updating :=
  if s.tasks.contains id then none else some { s with tasks := s.tasks.insert id task }

/-- The call is at a further stage, or has returned. -/
def moveTo (id : Nat) (task : Option Task) (s : Updating) : Updating :=
  match task with
  | some task => { s with tasks := s.tasks.insert id task }
  | none => { s with tasks := s.tasks.erase id }

def runSection (id : Nat) (now : Int64) (nonces : String → Nat) (s : Updating) :
    Task → Updating
  | .device op stage =>
      let (next, statics) :=
        stage.next (deviceUpdates libs) libs.crypt now (nonces "") op s.statics
      let devices := if next.isNone then s.devices ++ op.returned else s.devices
      { s with statics, devices }.moveTo id (next.map (.device op))
  | .viewer op stage =>
      let (next, statics) :=
        stage.next (viewerUpdates libs) libs.crypt now (nonces "") op s.statics
      let viewers := if next.isNone then s.viewers ++ op.returned else s.viewers
      { s with statics, viewers }.moveTo id (next.map (.viewer op))
  | .setOption k v =>
      let statics := HbbCommon.Config.setOption libs settings (nonces k) k v s.statics
      let viewers :=
        if passphrase libs statics ≠ passphrase libs s.statics then
          s.viewers ++ [.cleared ((pairedViewers libs).storedEntries libs.crypt s.statics.config2)]
        else s.viewers
      { s with statics, viewers }.moveTo id none
  | .setOptions v none => s.moveTo id (some (.setOptions v (some s.statics.config2.options)))
  | .setOptions v (some previous) =>
      let options := settleOptions libs settings nonces v previous
      { s with statics := writeOptions libs options previous s.statics }.moveTo id none

def step (s : Updating) : Action → Option Updating
  | .addTrustedDevice id device =>
      Updating.call id (.device (.add device) .start)
        { s with devices := s.devices ++ [.began device] }
  | .removeTrustedDevices id hwids => s.call id (.device (.remove hwids) .start)
  | .addPairedViewer id viewer =>
      if viewer.signPk = [] ∨ viewer.scope = "" then some s
      else
        Updating.call id (.viewer (.add viewer) .start)
          { s with viewers := s.viewers ++ [.began viewer] }
  | .removePairedViewers id signPks => s.call id (.viewer (.remove signPks) .start)
  | .setOption id k v => s.call id (.setOption k v)
  | .setOptions id v => s.call id (.setOptions v none)
  | .runs id now nonces => (s.tasks.get? id).map (s.runSection libs settings id now nonces)

end Updating

def updating (libs : ConfigLibs) (settings : Settings) (statics : Statics) :
    TSys Updating Action where
  init := { statics, tasks := ∅, devices := [], viewers := [] }
  step := Updating.step libs settings

end HbbCommon.Config

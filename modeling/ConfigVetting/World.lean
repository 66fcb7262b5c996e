import ConfigVetting.Cache.Basic
import ConfigVetting.Edit
import ConfigVetting.Event
import ConfigVetting.Rejection
import ConfigVetting.Schema.Index
import ConfigVetting.Store.Basic

/-! # The world of an engine

What the calls to an engine read and change: the store, the cache, the clock, and a record of what
happened. A call that is rejected keeps its changes of the world.
-/

namespace ConfigVetting

/-- What was handed to a processor. -/
structure Consultation where
  operation : Operation
  subject : Document
  dependent : Option Document

/-- All that the calls to an engine share and change. -/
structure World where
  store : Store
  cache : Cache := {}
  /-- The time in seconds. -/
  clock : Int := 0
  /-- The events so far, the oldest first. -/
  journal : List Event := []
  /-- What the processor was asked so far, the oldest first. -/
  consultations : List Consultation := []
  /-- What the cache was notified of so far, the oldest first. -/
  heard : List Notification := []

/-- A call that changes the world and may be rejected. -/
abbrev WorldM := ExceptT Rejection (StateM World)

/-- What the parts of an engine share and never change. -/
structure Setting where
  schema : Schema
  /-- The number of the database that channels are made for. -/
  database : Nat
  /-- How many rows are read in one batch. -/
  batchSize : Nat

namespace World

/-- What a step answers in a world, and the world after it. -/
def run {α : Type} (step : StateM World α) (world : World) : α × World :=
  StateT.run (m := Id) step world

/-- Writes an event to the journal. -/
def note (kind : EventKind) (fields : List (String × String)) : StateM World Unit :=
  modify fun world => { world with journal := world.journal ++ [⟨kind, fields⟩] }

/-- Records that the cache is notified. -/
def hear (notification : Notification) : StateM World Unit :=
  modify fun world => { world with heard := world.heard ++ [notification] }

/-- Changes the cache. -/
def modifyCache (change : Cache → Cache) : StateM World Unit :=
  modify fun world => { world with cache := change world.cache }

/-- Counts a use of the cache. -/
def countUse (count : CacheStats → CacheStats) : StateM World Unit :=
  modifyCache fun cache => { cache with stats := count cache.stats }

/-- Puts a request to the store, and tells whether it was served. -/
def tryStore {α : Type} (request : StoreM α) : StateM World (Except StoreFault α) :=
  modifyGet fun world =>
    let (answer, store) := StateT.run (m := Id) (ExceptT.run request) world.store
    (answer, { world with store })

/-- Puts a request to the store; a fault rejects the call. -/
def askStore {α : Type} (request : StoreM α) : WorldM α := do
  match ← tryStore request with
  | .ok answer => return answer
  | .error fault => throw (.ofStore fault)

end World

end ConfigVetting

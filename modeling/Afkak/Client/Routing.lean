import Afkak.Client.Metadata

/-!
# Which brokers the client asks (`_get_brokerclient`, `_send_broker_unaware_request`)

Requests that any broker can answer go to the brokers that the client knows, one after the other, until one answers;
others go to the leader of a partition or to the coordinator of a group. Both kinds wait in between, while responses
are merged and caches are reset. The log has the order of what was asked and what was named.

The client's brokers are never forgotten: a full metadata response only closes the broker clients of those that it
leaves out.
-/

open Lib

namespace Afkak.Client

/-- What the response of a broker-unaware request is for. -/
inductive Purpose
  /-- `load_metadata_for_topics()` -/
  | allTopics
  | topics (topics : List String)
  /-- `load_coordinator_for_group` -/
  | coordinator (group : String)
deriving DecidableEq

/-- Where a request goes: to the leader of a partition or to the coordinator of a group. -/
inductive Route
  | leader (tp : TopicAndPartition)
  | coordinator (group : String)
deriving DecidableEq

inductive Answer
  | metadata (r : MetadataResponse)
  | coordinator (error : Int) (b : BrokerMetadata)

inductive Entry
  /-- A broker client is made for the node. -/
  | created (nodeId : Int)
  /-- A request is handed to the client of the node. -/
  | asked (nodeId : Int)
  /-- A metadata or coordinator response names the nodes. -/
  | named (nodeIds : List Int)
deriving DecidableEq

/-- A broker-unaware request on its way: the nodes to try after the one that was asked, or `none` for the request
to the bootstrap hosts. -/
structure Unaware where
  purpose : Purpose
  rest : Option (List Int)

/-- A request whose payloads are being looked up: the brokers found so far, and the payloads to come. -/
structure Aware where
  found : List BrokerMetadata
  routes : List Route

structure Routing extends State where
  closing : Bool := false
  unaware : Dict Nat Unaware := .empty
  aware : Dict Nat Aware := .empty
  next : Nat := 0
  log : List Entry := []

namespace Routing

/-- `_get_brokerclient`, and then the request to it; nothing is sent when it raises. -/
def ask (s : Routing) (nodeId : Int) : Option Routing :=
  if s.closing then none
  else if nodeId ∈ s.clients.keys then some { s with log := s.log ++ [.asked nodeId] }
  else
    match s.brokers.get? nodeId with
    | none => none
    | some b => some { s with
      clients := s.clients.set nodeId b
      log := s.log ++ [.created nodeId, .asked nodeId] }

def forgetGroup (s : Routing) (group : String) : Routing :=
  { s with groupToCoordinator := s.groupToCoordinator.erase group }

/-- The request ends with an exception; only the errback of a coordinator request does something. -/
def fail (s : Routing) (k : Nat) : Purpose → Routing
  | .coordinator group => forgetGroup { s with unaware := s.unaware.erase k } group
  | _ => { s with unaware := s.unaware.erase k }

/-- The loop over the node ids: the next one is asked, or else the bootstrap hosts. -/
def tryNext (s : Routing) (k : Nat) (purpose : Purpose) (nodeIds : List Int) : Routing :=
  match nodeIds with
  | [] => { s with unaware := s.unaware.set k ⟨purpose, none⟩ }
  | nodeId :: rest =>
    match s.ask nodeId with
    | none => s.fail k purpose
    | some s => { s with unaware := s.unaware.set k ⟨purpose, some rest⟩ }

/-- The loop that sends one request to each broker; it ends where `_get_brokerclient` raises. -/
def askAll (s : Routing) : List Int → Routing
  | [] => s
  | nodeId :: rest =>
    match s.ask nodeId with
    | none => s
    | some s => askAll s rest

/-- `_update_brokers` on a closed client has no dictionary of clients, and with brokers to look up in it raises after
the first assignment. -/
def merge (s : Routing) (r : MetadataResponse) (fetchedAllTopics : Bool) : Routing :=
  let s : Routing := { s with log := s.log ++ [.named r.brokers.keys] }
  if s.closing ∧ r.brokers.entries ≠ [] then { s with brokers := s.brokers.update r.brokers.entries }
  else { s with toState := (mergeTopicMetadata s.toState r fetchedAllTopics).1 }

/-- `_handleConsumerMetadataResponse`, and `_handleConsumerMetadataErr` for what it raises. -/
def setCoordinator (s : Routing) (group : String) (error : Int) (b : BrokerMetadata) : Routing :=
  let s : Routing := { s with log := s.log ++ [.named [b.nodeId]] }
  if error ≠ 0 then s.forgetGroup group
  else
    let s : Routing := { s with groupToCoordinator := s.groupToCoordinator.set group b }
    if s.closing then forgetGroup { s with brokers := s.brokers.set b.nodeId b } group
    else { s with toState := updateBrokers s.toState [b] false }

/-- The broker that the cache has for a route. -/
def resolve (s : Routing) : Route → Option BrokerMetadata
  | .leader tp => (s.topicsToBrokers.get? tp).join
  | .coordinator group => s.groupToCoordinator.get? group

end Routing

inductive Contact
  /-- `up` are the nodes with a connected client, `down` the others, both as they were shuffled. -/
  | send (purpose : Purpose) (up down : List Int)
  /-- The attempt under way fails with a `KafkaError`. -/
  | failed (k : Nat)
  | answered (k : Nat) (a : Answer)
  /-- The request ends with an exception. -/
  | ended (k : Nat)
  | route (routes : List Route)
  /-- The next payload's broker is in the cache. -/
  | resolved (k : Nat)
  /-- It is not, or the metadata cannot be loaded. -/
  | abandoned (k : Nat)
  | resetTopics (topics : List String)
  | resetGroups (groups : List String)
  | resetAll
  | close

namespace Routing

open Contact in
def step (s : Routing) : Contact → Option Routing
  | send purpose up down =>
    if s.closing ∨ ¬ (up ++ down).Perm s.brokers.keys ∨ ∃ n ∈ up, n ∉ s.clients.keys then none
    else some (tryNext { s with next := s.next + 1 } s.next purpose (up ++ down))
  | failed k =>
    match s.unaware.get? k with
    | some ⟨purpose, some rest⟩ => some (tryNext s k purpose rest)
    | _ => none
  | answered k a =>
    match s.unaware.get? k with
    | none => none
    | some u =>
      let s : Routing := { s with unaware := s.unaware.erase k }
      match u.purpose, a with
      | .allTopics, .metadata r => some (s.merge r true)
      | .topics _, .metadata r => some (s.merge r false)
      | .coordinator group, .coordinator error b => some (s.setCoordinator group error b)
      | _, _ => none
  | ended k =>
    match s.unaware.get? k with
    | none => none
    | some u => some (s.fail k u.purpose)
  | route routes => some { s with next := s.next + 1, aware := s.aware.set s.next ⟨[], routes⟩ }
  | resolved k =>
    match s.aware.get? k with
    | some ⟨found, r :: routes⟩ =>
      match s.resolve r with
      | none => none
      | some b =>
        -- The payloads are grouped by broker once all are looked up.
        if routes = [] then some (askAll { s with aware := s.aware.erase k } ((found ++ [b]).eraseDups.map (·.nodeId)))
        else some { s with aware := s.aware.set k ⟨found ++ [b], routes⟩ }
    | _ => none
  | abandoned k => some { s with aware := s.aware.erase k }
  | resetTopics topics => some { s with toState := (resetTopicMetadata s.toState topics).1 }
  | resetGroups groups => some (groups.foldl forgetGroup s)
  | resetAll => some { s with toState := resetAllMetadata s.toState }
  | close =>
    if s.closing then none
    else some { s with toState := { resetAllMetadata s.toState with clients := .empty }, closing := true }

end Routing

end Afkak.Client

import ServiceCatalog.Catalog.Effect

namespace ServiceCatalog

inductive Mutation where
  | create (request : Registration) (id : Uuid)
  | put (request : Registration) (id : Uuid)
  | update (id : Uuid) (patch : Patch) (base : Option Version)
  | delete (id : Uuid)
  | restore (id : Uuid)
  | remove (id : Uuid)
  | follow (id : Uuid) (user : Reference)
  | unfollow (id : Uuid) (user : Uuid)
  | recordTest (id : Uuid) (result : TestResult) (time : Int64)
  | test (id : Uuid) (probe : LaunchConfig → Report) (time : Int64)
  | discover (id : Uuid) (probe : LaunchConfig → Report)
  | selectTags (id : Uuid) (selected : List TagSelection)
  | setTier (id : Uuid) (tier : Option TagSelection)

namespace Mutation

/-- The probe with the launches noted, in their order. -/
def noting (probe : LaunchConfig → Report) (launch : LaunchConfig) (launches : List LaunchConfig) :
    Report × List LaunchConfig :=
  (probe launch, launches ++ [launch])

variable (settings : Settings) (records : Records) (actor : Actor)

def perform (m : Mutation) (launches : List LaunchConfig) : Outcome Effect × List LaunchConfig :=
  match m with
  | create request id => (Effect.create settings records actor request id, launches)
  | put request id => (Effect.put settings records actor request id, launches)
  | update id patch base => (Effect.update settings records actor id patch base, launches)
  | delete id => (Effect.mark records actor id true, launches)
  | restore id => (Effect.mark records actor id false, launches)
  | remove id => (Effect.remove records id, launches)
  | follow id user => (Effect.follow records actor id user, launches)
  | unfollow id user => (Effect.unfollow records actor id user, launches)
  | recordTest id result time => (Effect.recordTest records actor id result time, launches)
  | test id probe time => Effect.test records actor (noting probe) id time launches
  | discover id probe => Effect.discover settings records actor (noting probe) id launches
  | selectTags id selected => (Effect.selectTags settings records actor id selected, launches)
  | setTier id tier => (Effect.setTier settings records actor id tier, launches)

def effect (m : Mutation) : Outcome Effect := (m.perform settings records actor []).1

def launches (m : Mutation) : List LaunchConfig := (m.perform settings records actor []).2

end Mutation

end ServiceCatalog

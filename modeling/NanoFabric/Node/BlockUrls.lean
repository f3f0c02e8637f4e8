import Mathlib.Data.List.Basic

/-!
# Block ids in URLs

The clients of a storage node and of the metadata service put the id of a block into the path of a
`GET` as it is: `/read/{block_id}` in `cluster/node_client.py` and `node/replica_client.py`,
`/blocks/{block_id}` in `node/metadata_client.py`. Where such a URL leads is decided by the HTTP
client and by the router of the service, which are a parameter: an id with a `/` has no route, and
one with a `?` leads to the block whose id stands before it.
-/

namespace NanoFabric.Node

/-- Where the `GET` with an id in its path leads. -/
inductive Route
  /-- To the endpoint of blocks, with this id. -/
  | block (blockId : String)
  /-- To no endpoint, which is answered with 404. -/
  | notFound
  /-- To another endpoint, which answers with an object that has no field of a block. -/
  | elsewhere
  /-- To an answer that is an error or a redirect. -/
  | refused
  /-- Nowhere: `httpx.InvalidURL` is raised. -/
  | invalid
deriving DecidableEq, Repr

/-- What the HTTP client and the routers make of addresses and ids. -/
structure Urls where
  /-- The client takes a URL with this address. -/
  takes : String → Bool
  /-- The `GET` for a copy of the block, at a storage node. -/
  read : String → Route
  /-- The `GET` for the nodes of the block, at the metadata service. -/
  locations : String → Route

namespace Urls

/-- Where an id without percent signs and dot segments leads, in a URL that is not too long for the
client: the path ends at the first `?` or `#`, and one that only a `/` at its end keeps from a route is
redirected. -/
def route (blockId : String) : Route :=
  let path := blockId.toList.takeWhile fun c => c ≠ '?' ∧ c ≠ '#'
  let name := path.takeWhile (· ≠ '/')
  let rest := path.dropWhile (· ≠ '/')
  if blockId.toList.any fun c => c.toNat < 32 ∨ c.toNat = 127 then .invalid
  else if name = [] then .notFound
  else if rest = [] then .block (String.ofList name)
  else if rest.all (· = '/') then .refused
  else .notFound

/-- The URLs of such ids, at addresses that the client takes. -/
def plain : Urls := ⟨fun _ => true, route, route⟩

example : plain.read "block1" = .block "block1" ∧ plain.read "a?b" = .block "a" ∧
    plain.read "a/b" = .notFound ∧ plain.read "a/" = .refused := by
  decide

end Urls

end NanoFabric.Node

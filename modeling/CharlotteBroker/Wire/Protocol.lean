import CharlotteBroker.Core.Basic

/-!
# Protocol constants

The constants of `protocol.rs`: the supported APIs with their keys and the one version accepted of
each, the error codes used in responses, and the bounds on frames, strings, arrays and batches.

The source matches on pairs of `i16` constants; here an API is an enumeration (`Api`), and
`Api.find?` is that match.
-/

namespace CharlotteBroker.Wire

/-- A malformed or unsupported request or response. Source: `protocol.rs`, `Error`. Kind: D -/
inductive Error
  | incomplete
  | invalid
  | tooLarge
  | unsupportedApi
  | unsupportedVersion
  | correlation
  | checksum
  deriving DecidableEq, Repr

/-- The APIs implemented by the broker. Source: `protocol.rs`, `api`. Kind: D -/
inductive Api
  | produce
  | fetch
  | listOffsets
  | metadata
  | apiVersions
  | findCoordinator
  | initProducerId
  | addPartitionsToTxn
  | endTxn
  | joinGroup
  | syncGroup
  | heartbeat
  | leaveGroup
  | offsetCommit
  | offsetFetch
  deriving DecidableEq, Repr

namespace Api

/-- Source: `protocol.rs`, `api`. Kind: D -/
def key : Api → Int16
  | produce => 0
  | fetch => 1
  | listOffsets => 2
  | metadata => 3
  | apiVersions => 18
  | findCoordinator => 10
  | initProducerId => 22
  | addPartitionsToTxn => 24
  | endTxn => 26
  | offsetCommit => 8
  | offsetFetch => 9
  | joinGroup => 11
  | heartbeat => 12
  | leaveGroup => 13
  | syncGroup => 14

/-- The single version accepted for each API. Source: `protocol.rs`, `version`. Kind: D -/
def version : Api → Int16
  | produce => 3
  | fetch => 4
  | listOffsets => 1
  | metadata => 1
  | apiVersions => 0
  | findCoordinator => 1
  | initProducerId => 0
  | addPartitionsToTxn => 0
  | endTxn => 0
  | offsetCommit => 2
  | offsetFetch => 1
  | joinGroup => 1
  | heartbeat => 0
  | leaveGroup => 0
  | syncGroup => 0

/-- Every supported API, in the order in which they are advertised. -/
def all : List Api :=
  [produce, fetch, listOffsets, metadata, apiVersions, findCoordinator, initProducerId,
    addPartitionsToTxn, endTxn, joinGroup, syncGroup, heartbeat, leaveGroup, offsetCommit,
    offsetFetch]

/-- The API a header's key and version select.
Source: `request.rs`, `decode_request` (the patterns of the `match`). Kind: D -/
def find? (key version : Int16) : Option Api :=
  all.find? fun api => api.key == key && api.version == version

/-- An api is found by its own key and version only. -/
theorem find?_eq_some {key version : Int16} {api : Api} :
    find? key version = some api ↔ api.key = key ∧ api.version = version := by
  unfold find?
  constructor
  · intro h
    simpa using List.find?_some h
  · rintro ⟨rfl, rfl⟩
    cases api <;> decide

end Api

/-- The advertised versions, as `(api_key, min, max)`.
Source: `protocol.rs`, `SUPPORTED_VERSIONS`. Kind: D -/
def supportedVersions : List (Int16 × Int16 × Int16) :=
  Api.all.map fun api => (api.key, api.version, api.version)

/-- Source: `protocol.rs`, `is_supported_api`. Kind: D -/
def isSupportedApi (apiKey : Int16) : Bool := Api.all.any fun api => api.key == apiKey

/-- The key of every api is supported. -/
theorem isSupportedApi_key (api : Api) : isSupportedApi api.key = true := by
  cases api <;> decide

/-! ## Error codes. Source: `protocol.rs`. Kind: D -/

def noError : Int16 := 0
def offsetOutOfRange : Int16 := 1
def unknownTopicOrPartition : Int16 := 3
def unsupportedVersion : Int16 := 35
def unknownServerError : Int16 := -1
def invalidRequest : Int16 := 42
def invalidProducerEpoch : Int16 := 47
def invalidTxnState : Int16 := 48

/-! ## Bounds. Source: `protocol.rs`. Kind: D -/

/-- Maximum accepted frame payload length. -/
def maxFrameLen : ℕ := 1024 * 1024

/-- Maximum accepted string length. -/
def maxStringLen : ℕ := 8 * 1024

/-- Maximum accepted array element count. -/
def maxArrayLen : ℕ := 16 * 1024

/-- Maximum accepted record count per batch. -/
def maxRecords : ℕ := 1024

end CharlotteBroker.Wire

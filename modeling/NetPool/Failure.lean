import NetPool.Address.Subnet
import NetPool.Pool.Kind
import NetPool.Store.Basic
import NetPool.Text.Quoted

/-! Why an operation on pools, claims or the cache failed. Passing troubles of the store and
collisions of keys are worth another attempt; a revoked lease is fatal to its holder. -/

namespace NetPool

open Text

/-- A request that makes no sense for the pool. -/
inductive Misuse
  | poolName (name : String)
  | boundsOutside (pool : String) (bounds : AddressRange) (network : Subnet)
  | blockTooLarge (pool : String) (exponent : Nat) (network : Subnet)
  | subnetLength (pool : String) (length : Nat) (network : Subnet)
  | gatewayOutside (pool : String) (gateway : Address) (network : Subnet)
  | noCandidates (pool : String) (offset : UInt32) (bounds : AddressRange)
  | poolKind (pool : String) (kind : PoolKind)
  | unknownPool (name : String)
  | workloadMissing
  | workloadEmpty
  | noAllocator (kind : PoolKind)
  | foreignClaim (claim : PoolKind) (kind : PoolKind) (pool : String)
  | unreleasable (allocator : PoolKind) (claim : PoolKind)
  | stated (reason : String)
deriving DecidableEq

def Misuse.message : Misuse → String
  | .poolName name =>
    "pool name " ++ quoted name ++ " must be non-empty and contain no '/'"
  | .boundsOutside pool bounds network =>
    "pool " ++ pool ++ ": range " ++ bounds.text ++ " is outside " ++ network.text
  | .blockTooLarge pool exponent network =>
    "pool " ++ pool ++ ": block of 2^" ++ numeralText exponent ++ " addresses does not fit " ++
      network.text
  | .subnetLength pool length network =>
    "pool " ++ pool ++ ": subnet length /" ++ numeralText length ++ " is not within " ++
      network.text
  | .gatewayOutside pool gateway network =>
    "pool " ++ pool ++ ": gateway " ++ gateway.text ++ " is outside " ++ network.text
  | .noCandidates pool offset bounds =>
    "pool " ++ pool ++ ": reserved offset " ++ numeralText offset.toNat ++
      " leaves no candidates in " ++ bounds.text
  | .poolKind pool kind => "pool " ++ pool ++ " is a " ++ kind.text ++ " pool"
  | .unknownPool name => "unknown pool " ++ name
  | .workloadMissing => "fixed pools require a workload identity"
  | .workloadEmpty => "workload identity must not be empty"
  | .noAllocator kind => "no allocator registered for " ++ kind.text ++ " pools"
  | .foreignClaim claim kind pool =>
    claim.text ++ " claim cannot be released into " ++ kind.text ++ " pool " ++ pool
  | .unreleasable allocator claim =>
    allocator.text ++ " allocator cannot release a " ++ claim.text ++ " claim"
  | .stated reason => reason

/-- What keeps a key and its value from being a claim. -/
inductive CodecFault
  | notRangeKey
  | notSubnetKey
  | notFixedKey
  | notEndpointKey
  | malformedRecord
  | stated (reason : String)
deriving DecidableEq

def CodecFault.message : CodecFault → String
  | .notRangeKey => "not a range claim key"
  | .notSubnetKey => "not a subnet claim key"
  | .notFixedKey => "not a fixed claim key"
  | .notEndpointKey => "not an endpoint key"
  | .malformedRecord => "malformed claim record"
  | .stated reason => reason

inductive FileFault
  | notFound
  | notDirectory
  | isDirectory
  | notText
  | invalidName
  | nameTooLong
deriving DecidableEq

def FileFault.message : FileFault → String
  | .notFound => "No such file or directory"
  | .notDirectory => "Not a directory"
  | .isDirectory => "Is a directory"
  | .notText => "stream did not contain valid UTF-8"
  | .invalidName => "file name contained an unexpected NUL byte"
  | .nameTooLong => "File name too long"

inductive CacheFault
  | overlap (range cached : AddressRange)
  | file (fault : FileFault)
  | stated (reason : String)
deriving DecidableEq

def CacheFault.message : CacheFault → String
  | .overlap range cached => range.text ++ " overlaps cached range " ++ cached.text
  | .file fault => fault.message
  | .stated reason => reason

inductive Failure
  | store (e : StoreError)
  | collision (key : String)
  | capacityExhausted (pool : String) (requested : UInt64)
  | exhausted (pool : String) (attempts : Nat)
  | revoked (pool : String) (subnet : String)
  | cache (path : String) (fault : CacheFault)
  | codec (key : String) (fault : CodecFault)
  | address (e : AddressError)
  | invalid (misuse : Misuse)
deriving DecidableEq

namespace Failure

def message : Failure → String
  | .store e => "coordination store: " ++ e.message
  | .collision key => "claim key " ++ key ++ " already exists"
  | .capacityExhausted pool requested =>
    "pool " ++ pool ++ " has no free block of " ++ numeralText requested.toNat ++ " addresses"
  | .exhausted pool attempts =>
    "pool " ++ pool ++ ": allocation gave up after " ++ numeralText attempts ++ " attempts"
  | .revoked pool subnet => "lease on " ++ subnet ++ " in pool " ++ pool ++ " was revoked"
  | .cache path fault => "local cache " ++ path ++ ": " ++ fault.message
  | .codec key fault => "claim " ++ key ++ ": " ++ fault.message
  | .address e => "address: " ++ e.message
  | .invalid misuse => "invalid request: " ++ misuse.message

/-- Worth another attempt. -/
def retriable : Failure → Bool
  | .store e => e.transient
  | .collision _ => true
  | _ => false

/-- Must stop whoever sees it. -/
def fatal : Failure → Bool
  | .revoked _ _ => true
  | _ => false

end Failure

end NetPool

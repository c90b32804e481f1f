import MaskPool.Model.Client

/-!
# `get_mask`

The packet's source is registered when it is unknown, its domain is looked up, and
the pool is scanned for the domain's masks. The local `mask_domain` starts out
uninitialised: its content is an argument of the model.
-/

namespace MaskPool

/-- The file-level `dynamic_assignment`, never written. -/
def dynamicAssignment : Bool := true

def getSpoolMask (host : Host) (_packet : Packet) (_spool : Pool4) : ℤ × Ipv4TransportAddr :=
  (0, { l3 := cpuToBe32 host 0, l4 := 0 })

/-- Either loop of `get_mask` returns from the function, or leaves the budget `n`
and the current `*result` behind. -/
inductive MaskScan where
  | returned (result : Ipv4TransportAddr)
  | scanned (n : Word) (result : Ipv4TransportAddr)
  deriving DecidableEq, Repr

def scanPorts (maskDomain : ClientMaskDomain) (entry : Pool4Entry) :
    List ℕ → Word → Ipv4TransportAddr → MaskScan
  | [], n, result => .scanned n result
  | i :: ports, n, result =>
    if entry.addr = maskDomain.first.l3 ∧ i = maskDomain.first.l4.toNat then
      let taddr : Ipv4TransportAddr := { l3 := entry.addr, l4 := BitVec.ofNat 16 i }
      if !bibdbContains4 taddr then .returned taddr
      -- the `break` leaves only this entry's loop
      else if n - 1 = 0 then .scanned (n - 1) taddr
      else scanPorts maskDomain entry ports (n - 1) taddr
    else scanPorts maskDomain entry ports n result

def scanEntries (maskDomain : ClientMaskDomain) :
    Pool4 → Word → Ipv4TransportAddr → MaskScan
  | [], n, result => .scanned n result
  | entry :: rest, n, result =>
    match scanPorts maskDomain entry (entryPorts entry) n result with
    | .returned taddr => .returned taddr
    | .scanned n result => scanEntries maskDomain rest n result

/-- The database `get_mask` goes on with; `none` sends the packet to the spool. -/
def registerSource (host : Host) (client : Client) (saddr : In6Addr) (kmalloc : Bool) :
    Option Client :=
  if !clientAddrExist host client saddr then
    if dynamicAssignment then
      some (clientAdd client { address := saddr, len := 128 } kmalloc).2
    else none
  else some client

def getMask (host : Host) (packet : Packet) (cpool spool : Pool4) (client : Client)
    (result : Ipv4TransportAddr) (masksPerClient : Word) (kmalloc : Bool)
    (maskDomain : ClientMaskDomain) : ℤ × Client × Ipv4TransportAddr :=
  if pool4IsEmpty cpool then
    let (error, result) := getSpoolMask host packet spool
    (error, client, result)
  else
    match registerSource host client packet.hdr.saddr kmalloc with
    | none =>
      let (error, result) := getSpoolMask host packet spool
      (error, client, result)
    | some client =>
      let (error, maskDomain) :=
        clientGetMaskDomain host client cpool packet.hdr.saddr maskDomain masksPerClient
      if error ≠ 0 then (error, client, result)
      else
        match scanEntries maskDomain cpool maskDomain.count result with
        | .returned result => (error, client, result)
        | .scanned _ _ =>
          let (error, result) := getSpoolMask host packet spool
          (error, client, result)

end MaskPool

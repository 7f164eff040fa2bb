import Hopclaw.Net.Addr

/-! # The guard against server-side request forgery

`internal/ssrf` and `toolruntime/ssrf.go`: which hosts the network tools may contact. -/

namespace Hopclaw.Tools

open GoStrings GoNet

/-! ## Networks and host lists -/

def parseNetworks (cidrs : List String) : Option (List IPNet) :=
  cidrs.mapM parseCIDR

/-- The table is parsed when the program starts, and a text in it that is no network ends the
    program there. -/
def defaultPrivateNetworks : List IPNet :=
  (parseNetworks [
    "10.0.0.0/8",
    "172.16.0.0/12",
    "192.168.0.0/16",
    "127.0.0.0/8",
    "169.254.0.0/16",
    "0.0.0.0/8",
    "100.64.0.0/10",
    "198.18.0.0/15",
    "::1/128",
    "fc00::/7",
    "fe80::/10"]).getD []

def isIPInNetworks (ip : IP) (networks : List IPNet) : Bool :=
  networks.any fun network => network.contains ip

def isPrivateNetworkIP (ip : IP) : Bool :=
  isIPInNetworks ip defaultPrivateNetworks

def isBenchmarkTestingIP (ip : IP) : Bool :=
  ((parseCIDR "198.18.0.0/15").map fun network => network.contains ip).getD false

/-- One entry of a host list, trimmed and in lower case, against a host in lower case. -/
def hostMatchesEntry (lower entry : String) : Bool :=
  entry ≠ "" &&
    (lower = entry ||
      hasPrefix entry "." && hasSuffix lower entry ||
      !hasPrefix entry "." && hasSuffix lower ("." ++ entry))

def hostMatchesList (host : String) (list : List String) : Bool :=
  list.any fun entry => hostMatchesEntry (toLower host) (toLower (trimSpace entry))

def isLoopbackHost (host : String) : Bool :=
  trimSuffix (toLower (trimSpace host)) "." ∈ ["localhost", "127.0.0.1", "::1", "[::1]"]

/-! ## The guard -/

/-- The constraints of the network tools that the guard reads. -/
structure NetConstraints where
  allowPrivate : Bool := false
  allowLocal : Option Bool := none
  denyHosts : List String := []
  allowHosts : List String := []

/-- `allow_local` where it is not set counts as set. -/
def NetConstraints.permitsLocal (c : NetConstraints) : Bool :=
  c.allowLocal.getD true

/-- What the guard asks of the Go library. -/
structure NetLib where
  /-- `net.LookupIP`, which may fail with an error. -/
  lookupIP : String → Except String (List IP)
  /-- `IP.String`. -/
  ipString : IP → String

/-- The texts of the guard's errors follow the common start `ssrf: `. -/
def refuse (text : String) : Except String Unit :=
  .error ("ssrf: " ++ text)

def localhostRefused : Except String Unit :=
  refuse "localhost access is not allowed"

/-- The text between the brackets of a host in brackets. -/
def literalHost (host : String) : String :=
  if hasPrefix host "[" && hasSuffix host "]" then trimPrefix (trimSuffix host "]") "["
  else host

/-- The check of a host that is written as an address. -/
def checkLiteral (allowLocal : Bool) (host : String) (ip : IP) : Except String Unit :=
  if isLoopback ip then
    if allowLocal then .ok () else localhostRefused
  else if isPrivateNetworkIP ip then
    refuse ("target ip " ++ host ++ " is in a private network range")
  else .ok ()

/-- The loop over the addresses a host resolves to. A loopback address is only noted, so that a
    private address behind it is still found. -/
def checkResolved (lib : NetLib) (allowLocal : Bool) (host : String) (sawLoopback : Bool) :
    List IP → Except String Unit
  | [] =>
    if sawLoopback then
      if allowLocal then .ok () else localhostRefused
    else .ok ()
  | ip :: rest =>
    if isLoopback ip then checkResolved lib allowLocal host true rest
    else if isPrivateNetworkIP ip then
      if allowLocal && isBenchmarkTestingIP ip then
        checkResolved lib allowLocal host sawLoopback rest
      else
        refuse ("host " ++ quoted host ++ " resolves to private ip " ++ lib.ipString ip)
    else checkResolved lib allowLocal host sawLoopback rest

/-- The check of a host that is a name. A name that cannot be resolved passes where local access is
    allowed. -/
def checkLookup (lib : NetLib) (allowLocal : Bool) (host : String) : Except String Unit :=
  match lib.lookupIP host with
  | .error err =>
    if !allowLocal then
      refuse ("cannot resolve " ++ quoted host ++ ", blocking for safety: " ++ err)
    else .ok ()
  | .ok ips => checkResolved lib allowLocal host false ips

def checkHostSSRF (lib : NetLib) (host : String) (constraints : NetConstraints) :
    Except String Unit :=
  if trimSpace host = "" then refuse "empty hostname"
  -- Hosts on an allow list skip all checks, and all others are refused.
  else if constraints.allowHosts ≠ [] then
    if hostMatchesList host constraints.allowHosts then .ok ()
    else refuse ("host " ++ quoted host ++ " is not in the allow list")
  else if hostMatchesList host constraints.denyHosts then
    refuse ("host " ++ quoted host ++ " is blocked by deny list")
  else if constraints.allowPrivate then .ok ()
  else if isLoopbackHost host then
    if constraints.permitsLocal then .ok () else localhostRefused
  else
    match parseIP (literalHost host) with
    | some ip => checkLiteral constraints.permitsLocal host ip
    | none => checkLookup lib constraints.permitsLocal host

end Hopclaw.Tools

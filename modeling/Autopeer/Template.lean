import Autopeer.PeerData

/-! The BIRD fragment of one peer. -/
namespace Autopeer.Template
open Ipv6 PeerData

structure PeerTemplate where
  peerId : UInt32
  peerName : String
  asn : UInt32
  localAsn : UInt32
  iface : String
  localLlIp : Ipv6Addr
  remoteLlIp : Ipv6Addr
  deriving DecidableEq, Repr

def isAsciiControl (c : Char) : Bool := c.toNat < 32 || c.toNat = 127

def writeEscapedChar (c : Char) : List Char :=
  if c = '"' then ['\\', '"']
  else if c = '\\' then ['\\', '\\']
  else if c = '\n' ∨ c = '\r' then [' ']
  else if isAsciiControl c then []
  else [c]

def writeEscapedStr (string : String) : String :=
  String.ofList (string.toList.flatMap writeEscapedChar)

/-- The text of `templates/peer.conf`; every inserted value passes through the escaper. -/
def PeerTemplate.render (t : PeerTemplate) : String :=
  let asn := writeEscapedStr (toString t.asn)
  let peerId := writeEscapedStr (toString t.peerId)
  let iface := writeEscapedStr t.iface
  String.intercalate "\n" [
    "# Dynamically generated by DN42 Autopeer for AS" ++ asn,
    "# Peer name: " ++ writeEscapedStr t.peerName ++ " (ID " ++ peerId ++ ")",
    "# Interface: " ++ iface,
    "",
    "protocol bgp dn42_" ++ asn ++ "_" ++ peerId ++ " \x7b",
    "  local " ++ writeEscapedStr t.localLlIp.display ++ " as " ++
      writeEscapedStr (toString t.localAsn) ++ ";",
    "  neighbor " ++ writeEscapedStr t.remoteLlIp.display ++ " % '" ++ iface ++ "' as " ++ asn ++ ";",
    "  ",
    "  ipv6 \x7b",
    "    table dn42_v6;",
    "    import table;",
    "    import where dn42_import_from_peer(" ++ asn ++ ", " ++ peerId ++ ");",
    "    export where dn42_export_to_peer(" ++ asn ++ ", " ++ peerId ++ ");",
    "  \x7d;",
    "  ipv4 \x7b",
    "    table dn42_v4;",
    "    import table;",
    "    import where dn42_import_from_peer_v4(" ++ asn ++ ", " ++ peerId ++ ");",
    "    export where dn42_export_to_peer_v4(" ++ asn ++ ", " ++ peerId ++ ");",
    "    extended next hop on;",
    "  \x7d;",
    "\x7d"]

def renderPeerConfig (localAsn : UInt32) (peer : Peer) : String :=
  PeerTemplate.render {
    peerId := peer.peerId
    peerName := peer.peerName
    asn := peer.asn
    localAsn := localAsn
    iface := peer.ifaceName
    localLlIp := peer.localLlIp
    remoteLlIp := peer.remoteLlIp }

/-- The fragment does not show the status, the key, the endpoint, the port or the MTU. -/
theorem renderPeerConfig_congr {localAsn : UInt32} {p q : Peer} (hid : p.peerId = q.peerId)
    (hname : p.peerName = q.peerName) (hasn : p.asn = q.asn) (hiface : p.ifaceName = q.ifaceName)
    (hlocal : p.localLlIp = q.localLlIp) (hremote : p.remoteLlIp = q.remoteLlIp) :
    renderPeerConfig localAsn p = renderPeerConfig localAsn q := by
  simp only [renderPeerConfig, hid, hname, hasn, hiface, hlocal, hremote]

end Autopeer.Template

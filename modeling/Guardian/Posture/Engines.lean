import Guardian.Triage.Record

/-!
# The findings of the posture engines

What three passive engines make of what they find: infrastructure code, Kubernetes objects, and the
reports that an agent submits about a network or a server.  Each engine puts the subject of a
finding under its own keys of the location.
-/

namespace Guardian.Posture

open Python Findings Triage

def jsonInt (n : ℤ) : Json := .number (toString n).toList

def noSignals : Signals := ⟨none, none, false, none, false⟩

/-- `_truncate`, of a text that is there. -/
def truncate (value : Str) : Str :=
  if value.length ≤ 4000 then value else value.take 4000 ++ "…[truncated]"

/-- `Evidence.to_dict`, of the kind `config`. -/
def configEvidence (summary : Str) (location detail : Json.Dict) : Json.Dict :=
  [("kind", .str "config"), ("summary", .str (truncate summary)),
    ("location", .dict location),
    ("detail", .dict (detail.map fun entry =>
      (entry.1, match entry.2 with
        | .str s => .str (truncate s)
        | other => other))),
    ("artifact_ref", .null)]

/-- The page of a weakness.  `cwe` is `CWE-` and its number. -/
def cweReference (cwe : Str) : Json.Dict :=
  [("cwe", .str ("https://cwe.mitre.org/data/definitions/" ++
    (cwe.splitOn '-').getD 1 [] ++ ".html"))]

/-! ### Infrastructure code -/

/-- `IacFinding`. -/
structure IacFinding where
  rule : Str
  title : Str
  severity : Severity
  cwe : Str
  detail : Str
  resource : Str
  path : Str
  line : ℤ
  remediation : Str

/-- What `_to_raw` reads of a resource. -/
structure Resource where
  type : Str
  dialect : Str

/-- `_to_raw`. -/
def toRaw (issue : IacFinding) (resource : Resource) : RawFinding where
  engine := "iac"
  title := issue.title
  category := "iac-misconfig"
  description :=
    if issue.remediation = [] then issue.detail
    else issue.detail ++ "\n\nRemediation: " ++ issue.remediation
  baseSeverity := issue.severity
  confidence := "high"
  cweId := some issue.cwe
  owaspRef := none
  cveIds := []
  signals := noSignals
  location :=
    [("path", .str issue.path), ("line", jsonInt issue.line),
      ("resource", .str issue.resource), ("rule", .str issue.rule)]
  evidence := configEvidence (issue.resource ++ " in " ++ issue.path)
    [("path", .str issue.path), ("line", jsonInt issue.line),
      ("resource", .str issue.resource)]
    [("dialect", .str resource.dialect), ("resource_type", .str resource.type),
      ("rule", .str issue.rule)]
  references := cweReference issue.cwe

/-! ### Kubernetes objects -/

/-- What `_finding` reads of a `Document`. -/
structure Document where
  kind : Str
  name : Str
  namespaceName : Str
  path : Str
  templated : Bool

/-- `Document.label`. -/
def Document.label (doc : Document) : Str :=
  (if doc.namespaceName = [] then [] else doc.namespaceName ++ ['/']) ++ doc.kind ++ ['/'] ++
    doc.name

/-- `Issue`. -/
structure Issue where
  rule : Str
  title : Str
  severity : Str
  cwe : Str
  control : Str
  detail : Str
  remediation : Str
  subject : Str
  evidence : Json.Dict
  category : Str

/-- `_SEVERITY`. -/
def severities : List (Str × Severity) :=
  [("critical", .critical), ("high", .high), ("medium", .medium),
    ("low", .low), ("info", .info)]

/-- What is said of an object that comes from a template. -/
def templatedText : Str :=
  ("\n\nThis object comes from a template; the structural rule that fired reads the same after " ++
    "rendering, but any templated *value* was not evaluated.").toList

/-- `_finding`. -/
def k8sFinding (doc : Document) (issue : Issue) : RawFinding where
  engine := "k8s"
  title := issue.title
  category := issue.category
  description := (if doc.templated then issue.detail ++ templatedText else issue.detail) ++
    "\n\nRemediation: " ++ issue.remediation
  baseSeverity := (severities.lookup issue.severity).getD .medium
  confidence := if doc.templated then "medium".toList else "high".toList
  cweId := if issue.cwe = [] then none else some issue.cwe
  owaspRef := none
  cveIds := []
  signals := noSignals
  location :=
    [("path", .str doc.path), ("workload", .str doc.label),
      ("rule", .str issue.rule), ("cis", .str issue.control),
      ("subject", .str issue.subject)]
  evidence := configEvidence
    (doc.path ++ ": " ++ doc.label ++
      if issue.subject = [] then [] else " (".toList ++ issue.subject ++ ")".toList) []
    (issue.evidence.foldl (fun d entry => Json.put entry.1 entry.2 d)
      [("object", .str doc.label), ("control", .str issue.control),
        ("finding", .str issue.title)])
  references := [("cis", .str issue.control)]

/-! ### Reports of an agent -/

/-- An entry of `open_ports` or `listening`. -/
structure Port where
  port : ℤ
  address : Str
  deriving DecidableEq

/-- An entry of `hosts`. -/
structure Host where
  ip : Str
  hostname : Str
  openPorts : List Port
  deriving DecidableEq

/-- What is found out about a router. -/
structure Router where
  mgmtHttp : Bool
  mgmtHttps : Bool
  wanMgmt : Bool
  upnp : Bool
  deriving DecidableEq

/-- What is found out about a server.  The texts of `ssh` are empty if it was not looked at. -/
structure Server where
  permitRootLogin : Str
  passwordAuthentication : Str
  sshProtocol : Str
  firewallEnabled : Option Bool
  distro : Str
  version : Str
  eol : Bool
  listening : List Port
  passwordlessSudo : Bool
  daemonTcp : Bool
  privilegedContainers : ℤ
  deriving DecidableEq

/-- **A normalized report.** -/
structure Report where
  kind : Str
  authorized : Bool
  hostname : Str
  gateway : Str
  router : Router
  hosts : List Host
  server : Server
  deriving DecidableEq

/-- `_INSECURE_SERVICES`. -/
def insecureServices : List (ℤ × Str) :=
  [(23, "telnet"), (21, "ftp"), (512, "rexec"), (513, "rlogin"),
    (514, "rsh"), (2375, "docker-daemon"), (111, "rpcbind"),
    (445, "smb"), (139, "netbios")]

/-- The service of a port, if it is insecure and not judged elsewhere. -/
def exposedService (port : ℤ) : Option Str :=
  (insecureServices.lookup port).filter fun service => service ≠ "docker-daemon"

/-- `_f`. -/
def hostFinding (title category : Str) (severity : Severity) (cwe description : Str)
    (location : Json.Dict) : RawFinding where
  engine := "host_posture"
  title := title.take 300
  category := category
  description := description
  baseSeverity := severity
  confidence := "high"
  cweId := some cwe
  owaspRef := none
  cveIds := []
  signals := noSignals
  location := ("source", .str "local-agent") :: location
  evidence := ("detector", .str "host-posture") :: location
  references := cweReference cwe

/-- `a or b`, of texts. -/
def orText (a b : Str) : Str := if a = [] then b else a

/-- The findings about the router. -/
def routerFindings (p : Report) : List RawFinding :=
  let gateway := [("gateway".toList, Json.str p.gateway)]
  let host := orText p.hostname (orText p.gateway "the router")
  (if p.router.mgmtHttp ∧ p.router.mgmtHttps = false then
    [hostFinding "Router management over cleartext HTTP" "network-router" .high
      "CWE-319"
      ("The router at " ++ orText p.gateway host ++
        (" exposes its admin interface over unencrypted HTTP. Credentials and settings can be " ++
          "read on the LAN. Use HTTPS management and disable HTTP.").toList) gateway]
    else []) ++
  (if p.router.wanMgmt then
    [hostFinding "Router management exposed to the internet (WAN)" "network-router"
      .critical "CWE-284"
      ("The router's management interface is reachable from the WAN side. Remote administration " ++
        "should be disabled or restricted to a VPN.").toList gateway]
    else []) ++
  (if p.router.upnp then
    [hostFinding "UPnP enabled on the router" "network-router" .medium
      "CWE-284"
      ("UPnP lets any device on the LAN open inbound ports on the router without " ++
        "authentication, a common exposure path for IoT malware. Disable it unless a specific " ++
        "device requires it.").toList gateway]
    else [])

/-- The title of a service that a host exposes. -/
def lanTitle (service : Str) : Str := "Insecure service exposed on the LAN: " ++ service

/-- The finding about a port of a host. -/
def lanFinding (h : Host) (port : ℤ) (service : Str) : RawFinding :=
  hostFinding (lanTitle service) "network-service" .high "CWE-319"
    ("Host " ++ orText h.ip h.hostname ++ " exposes " ++ service ++
      " on port " ++ (toString port).toList ++
      ", a cleartext/legacy protocol. Disable it or use an encrypted equivalent.")
    [("host", .str h.ip), ("port", jsonInt port), ("service", .str service)]

/-- `_network_findings`. -/
def networkFindings (p : Report) : List RawFinding :=
  routerFindings p ++ p.hosts.flatMap fun h => h.openPorts.flatMap fun port =>
    ((exposedService port.port).map fun service => lanFinding h port.port service).toList

/-- The title of a service that a server listens with. -/
def listeningTitle (service : Str) : Str := "Insecure/legacy service listening: " ++ service

/-- The finding about a port that a server listens on. -/
def listeningFinding (host : Str) (port : Port) (service : Str) : RawFinding :=
  hostFinding (listeningTitle service) "server-service" .high "CWE-319"
    (host ++ " listens on port " ++ (toString port.port).toList ++ " (" ++ service ++
      "), a cleartext or legacy service. Disable it or restrict and encrypt it.")
    [("port", jsonInt port.port), ("service", .str service),
      ("address", .str port.address)]

/-- The findings about the settings of a server that come before those of its ports. -/
def settingFindings (host : Str) (s : Server) : List RawFinding :=
  (if s.permitRootLogin ∈
      ["yes".toList, "prohibit-password".toList, "without-password".toList] then
    [hostFinding "SSH permits root login" "server-ssh"
      (if s.permitRootLogin = "yes" then .high else .medium) "CWE-250"
      (host ++ " has sshd PermitRootLogin=" ++ s.permitRootLogin ++
        (". Disable direct root login (PermitRootLogin no) and use a named account with " ++
          "sudo.").toList)
      [("setting", .str "PermitRootLogin"),
        ("value", .str s.permitRootLogin)]]
    else []) ++
  (if s.passwordAuthentication = "yes" then
    [hostFinding "SSH allows password authentication" "server-ssh" .medium
      "CWE-262"
      (host ++ (" allows SSH password auth, exposing it to credential guessing. Prefer key-based " ++
        "auth (PasswordAuthentication no).").toList)
      [("setting", .str "PasswordAuthentication"),
        ("value", .str "yes")]]
    else []) ++
  (if s.sshProtocol = "1" then
    [hostFinding "SSH protocol 1 enabled" "server-ssh" .high "CWE-327"
      (host ++ (" enables the cryptographically broken SSH protocol 1. Use protocol 2 " ++
        "only.").toList)
      [("setting", .str "Protocol"), ("value", .str "1")]]
    else []) ++
  (if s.firewallEnabled = some false then
    [hostFinding "Host firewall disabled" "server-hardening" .medium
      "CWE-1188"
      (host ++ (" reports no active host firewall, so every listening service is exposed to any " ++
        "reachable network. Enable a default-deny firewall.").toList) []]
    else []) ++
  (if s.eol then
    [hostFinding ("End-of-life operating system: " ++ s.distro ++ [' '] ++ s.version)
      "server-os" .high "CWE-1104"
      (host ++ " runs " ++ s.distro ++ [' '] ++ s.version ++
        (", which no longer receives security updates. Upgrade to a supported " ++
          "release.").toList)
      [("distro", .str s.distro), ("version", .str s.version)]]
    else [])

/-- The findings about a server that come after those of its ports. -/
def accountFindings (host : Str) (s : Server) : List RawFinding :=
  (if s.passwordlessSudo then
    [hostFinding "Passwordless sudo configured" "server-hardening" .high
      "CWE-250"
      (host ++ (" grants sudo without a password, so any compromised user or process with that " ++
        "account has instant root. Require authentication for sudo.").toList) []]
    else []) ++
  (if s.daemonTcp then
    [hostFinding "Docker daemon exposed over TCP" "server-docker" .critical
      "CWE-284"
      (host ++ (" exposes the Docker daemon over a TCP socket. Access to the Docker API is " ++
        "equivalent to root on the host. Bind the daemon to the local socket only and never " ++
        "expose 2375/2376 without mTLS.").toList) []]
    else []) ++
  (if 0 < s.privilegedContainers then
    [hostFinding ("Privileged containers running (" ++
        (toString s.privilegedContainers).toList ++ ")") "server-docker" .high
      "CWE-250"
      (host ++ " runs " ++ (toString s.privilegedContainers).toList ++
        (" privileged container(s), which can escape to the host. Drop --privileged and grant " ++
          "only required capabilities.").toList)
      [("count", jsonInt s.privilegedContainers)]]
    else [])

/-- `_server_findings`. -/
def serverFindings (p : Report) : List RawFinding :=
  let host := orText p.hostname "the server"
  settingFindings host p.server ++
    (p.server.listening.flatMap fun port =>
      ((exposedService port.port).map fun service => listeningFinding host port service).toList) ++
    accountFindings host p.server

/-- **`run`** of the host engine: what it finds, or the error that it raises. -/
def hostRun (p : Report) : Except Str (List RawFinding) :=
  if p.authorized = false then
    .error "the posture report does not assert authorization; refusing to assess it"
  else if p.kind = "network_host" then .ok (networkFindings p)
  else if p.kind = "server_host" then .ok (serverFindings p)
  else .error ("unknown posture kind '" ++ p.kind ++ "'")

end Guardian.Posture

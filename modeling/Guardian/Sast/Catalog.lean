import Guardian.Findings.Scoring
import Guardian.Sast.Syntax
import Mathlib.Data.Finset.Basic

/-!
# What counts as a source, a sink and a sanitizer

The tables of the analysis.
-/

namespace Guardian.Sast

open Python Findings

/-- The classes of vulnerabilities. -/
inductive Cwe
  | codeInjection
  | commandInjection
  | sqlInjection
  | pathTraversal
  | deserialization
  | ssrf
  | openRedirect
  | ssti
  | xss
  | logInjection
  | nosqlInjection
  | ldapInjection
  deriving DecidableEq

/-- `_ALL_CLASSES`. -/
def allClasses : Finset Cwe :=
  {.codeInjection, .commandInjection, .sqlInjection, .pathTraversal, .deserialization, .ssrf,
    .openRedirect, .ssti, .xss, .logInjection, .nosqlInjection, .ldapInjection}

/-- `Sink`, as far as the analysis reads it.  The constant of a required keyword is the one with that
`repr`. -/
structure Sink where
  id : Str
  cwe : Cwe
  severity : Severity
  dotted : List Str := []
  methods : List Str := []
  positions : List ℕ := []
  keywords : List Str := []
  requiresKwarg : Option (Str × Const) := none
  deriving DecidableEq

/-- `SINKS`. -/
def sinks : List Sink :=
  [{ id := "taint-code-exec"
     cwe := .codeInjection
     severity := .critical
     dotted := ["eval", "exec", "compile", "builtins.eval",
       "builtins.exec"]
     positions := [0] },
   { id := "taint-shell-command"
     cwe := .commandInjection
     severity := .critical
     dotted := ["os.system", "os.popen", "commands.getoutput",
       "popen2.popen2"]
     positions := [0] },
   { id := "taint-subprocess-shell"
     cwe := .commandInjection
     severity := .critical
     dotted := ["subprocess.run", "subprocess.call", "subprocess.check_call",
       "subprocess.check_output", "subprocess.Popen"]
     positions := [0]
     requiresKwarg := some ("shell", .bool true) },
   { id := "taint-subprocess-argv"
     cwe := .commandInjection
     severity := .high
     dotted := ["subprocess.run", "subprocess.call", "subprocess.Popen",
       "os.execv", "os.execve"]
     positions := [0] },
   { id := "taint-sql"
     cwe := .sqlInjection
     severity := .critical
     dotted := ["sqlalchemy.text"]
     methods := ["execute", "executemany", "executescript", "raw"]
     positions := [0] },
   { id := "taint-deserialization"
     cwe := .deserialization
     severity := .critical
     dotted := ["pickle.load", "pickle.loads", "cPickle.loads",
       "marshal.loads", "dill.loads", "shelve.open", "yaml.load",
       "yaml.unsafe_load", "yaml.full_load"]
     positions := [0] },
   { id := "taint-path"
     cwe := .pathTraversal
     severity := .high
     dotted := ["open", "io.open", "os.remove", "os.unlink",
       "os.rename", "shutil.rmtree", "shutil.copy", "shutil.move",
       "pathlib.Path"]
     methods := ["send_file", "send_from_directory"]
     positions := [0] },
   { id := "taint-ssrf"
     cwe := .ssrf
     severity := .high
     dotted := ["requests.get", "requests.post", "requests.put",
       "requests.delete", "requests.head", "requests.patch",
       "requests.request", "httpx.get", "httpx.post",
       "httpx.request", "httpx.stream", "urllib.request.urlopen",
       "urllib.request.urlretrieve"]
     positions := [0]
     keywords := ["url"] },
   { id := "taint-open-redirect"
     cwe := .openRedirect
     severity := .medium
     dotted := ["flask.redirect", "redirect", "django.shortcuts.redirect"]
     positions := [0] },
   { id := "taint-ssti"
     cwe := .ssti
     severity := .critical
     dotted := ["flask.render_template_string", "render_template_string",
       "jinja2.Template", "jinja2.Environment.from_string"]
     positions := [0] },
   { id := "taint-xss"
     cwe := .xss
     severity := .high
     dotted := ["markupsafe.Markup", "flask.Markup", "Markup",
       "django.utils.safestring.mark_safe", "mark_safe"]
     positions := [0] },
   { id := "taint-log-injection"
     cwe := .logInjection
     severity := .high
     dotted := ["logging.debug", "logging.info", "logging.warning",
       "logging.warn", "logging.error", "logging.critical",
       "logging.exception", "logging.log"]
     methods := ["debug", "info", "warning", "warn", "error",
       "critical", "exception", "log"] },
   { id := "taint-nosql"
     cwe := .nosqlInjection
     severity := .critical
     methods := ["find_one", "find_one_and_update", "find_one_and_replace",
       "find_one_and_delete", "update_one", "update_many",
       "replace_one", "delete_one", "delete_many",
       "count_documents"]
     positions := [0] },
   { id := "taint-ldap"
     cwe := .ldapInjection
     severity := .high
     methods := ["search_s", "search_ext_s", "search_st",
       "search_ext_st", "search_ext", "search"]
     positions := [2]
     keywords := ["filterstr", "search_filter"] }]

/-- `Sanitizer`, as far as the analysis reads it. -/
structure Sanitizer where
  id : Str
  dotted : List Str
  neutralizes : Finset Cwe
  deriving DecidableEq

/-- `SANITIZERS`. -/
def sanitizers : List Sanitizer :=
  [{ id := "coerce"
     dotted := ["int", "float", "bool", "len", "uuid.UUID",
       "ipaddress.ip_address", "bson.ObjectId", "bson.objectid.ObjectId"]
     neutralizes := allClasses },
   { id := "shell-quote"
     dotted := ["shlex.quote", "pipes.quote"]
     neutralizes := {.commandInjection} },
   { id := "html-escape"
     dotted := ["html.escape", "cgi.escape", "markupsafe.escape",
       "bleach.clean"]
     neutralizes := {.xss} },
   { id := "url-quote"
     dotted := ["urllib.parse.quote", "urllib.parse.quote_plus"]
     neutralizes := {.openRedirect, .logInjection} },
   { id := "ldap-escape"
     dotted := ["ldap.filter.escape_filter_chars", "ldap.dn.escape_dn_chars",
       "ldap3.utils.conv.escape_filter_chars", "escape_filter_chars"]
     neutralizes := {.ldapInjection} },
   { id := "basename"
     dotted := ["os.path.basename"]
     neutralizes := {.pathTraversal} },
   { id := "regex-escape"
     dotted := ["re.escape"]
     neutralizes := {.codeInjection} }]

/-- `sanitizer_for`. -/
def sanitizerFor (dotted : Option Str) : Option Sanitizer :=
  dotted.bind fun d => sanitizers.find? (d ∈ ·.dotted)

/-- `REQUEST_OBJECTS`. -/
def requestObjects : List Str := ["request", "req", "self.request"]

/-- `REQUEST_ATTRIBUTES`. -/
def requestAttributes : List Str :=
  ["args", "form", "json", "data", "values", "cookies",
    "headers", "files", "query_params", "GET", "POST",
    "COOKIES", "META", "body", "path", "path_params",
    "url", "full_path", "query_string", "stream", "get_json",
    "get_data", "remote_addr", "referrer", "user_agent"]

/-- `SOURCE_DOTTED`. -/
def sourceDotted : List Str :=
  ["input", "sys.argv", "sys.stdin", "flask.request",
    "starlette.requests.Request"]

/-- `ROUTE_DECORATOR_ATTRS`. -/
def routeDecoratorAttrs : List Str :=
  ["route", "get", "post", "put", "patch", "delete",
    "head", "options", "websocket", "middleware", "api_route"]

/-- `_PROPAGATORS`. -/
def propagators : List Str :=
  ["str", "bytes", "bytearray", "repr", "format",
    "list", "tuple", "set", "dict", "os.path.join",
    "os.path.abspath", "os.path.normpath", "os.path.realpath",
    "os.path.expanduser", "posixpath.join", "pathlib.PurePath",
    "urllib.parse.urljoin", "urllib.parse.unquote",
    "urllib.parse.unquote_plus", "json.dumps", "json.loads",
    "copy.copy", "copy.deepcopy"]

end Guardian.Sast

import NetworkCa.Identity.Role
import NetworkCa.Path.Basic

namespace NetworkCa

structure AuthorityFiles where
  dir : Path
  key : Path
  cert : Path
  serial : Path
  deriving Repr, DecidableEq

namespace AuthorityFiles

def ofName (dir : Path) (name : String) : AuthorityFiles where
  dir := dir
  key := dir.file (name ++ ".key")
  cert := dir.file (name ++ ".pem")
  serial := dir.file (name ++ ".srl")

def certName (f : AuthorityFiles) : String := f.cert.fileName?.getD ""

end AuthorityFiles

structure AuthoritySettings where
  dir : Path
  filename : String
  method : KeyMethod
  passphrase : String
  subject : String
  requestConfig : Option Path
  deriving Repr, DecidableEq

namespace AuthoritySettings

def defaultSubject : String := "/C=CN/ST=Beijing/L=./O=MadLedger"

def default : AuthoritySettings where
  dir := ⟨"./CA"⟩
  filename := "localhostCA"
  method := .ecc
  passphrase := "unsafe dsa_password"
  subject := defaultSubject
  requestConfig := none

def files (s : AuthoritySettings) : AuthorityFiles := .ofName s.dir s.filename

def keyPassphrase (s : AuthoritySettings) : Option String :=
  if s.method.usesPassphrase then some s.passphrase else none

end AuthoritySettings

end NetworkCa

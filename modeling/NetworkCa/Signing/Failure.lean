import NetworkCa.Certificate.Fault
import NetworkCa.Extensions.Reader
import NetworkCa.Signing.Duration

namespace NetworkCa

inductive CryptoFault where
  | material (fault : MaterialFault)
  | keyFile (path : Path) (fault : MaterialFault)
  | serialFile (path : Path) (fault : Text.Hex.Fault)
  | other (text : String)
  deriving Repr, DecidableEq

def CryptoFault.message : CryptoFault → String
  | .material fault => fault.message
  | .keyFile path fault => s!"failed to parse key {path.text}: {fault.message}"
  | .serialFile path fault => s!"invalid serial file {path.text}: {fault.message}"
  | .other text => text

inductive SigningError where
  | spawn (program : String) (failure : FileFailure)
  | commandFailed (command status stderr : String)
  | timeout (command : String) (limit : Duration)
  | unsupported (backend what : String)
  | crypto (fault : CryptoFault)
  | io (path : Path) (failure : FileFailure)
  | extensions (error : ExtensionError)
  deriving Repr, DecidableEq

def SigningError.message : SigningError → String
  | .spawn program failure => s!"failed to spawn '{program}': {failure.message}"
  | .commandFailed command status stderr => s!"command failed: {command} ({status}): {stderr}"
  | .timeout command limit => s!"command timed out after {limit.print}: {command}"
  | .unsupported backend what => s!"{backend} signer does not support {what}"
  | .crypto fault => s!"crypto error: {fault.message}"
  | .io path failure => s!"I/O error on {path.text}: {failure.message}"
  | .extensions error => error.message

end NetworkCa

import Std.Data.String.ToNat
import NetworkCa.Signing.Command

namespace NetworkCa

/-- The same call with nothing written into it. -/
def SigningCall.blanked : SigningCall → SigningCall
  | .key method passphrase _ => .key method (passphrase.map fun _ => "") ⟨""⟩
  | .selfSign _ passphrase _ _ config _ =>
    .selfSign ⟨""⟩ (passphrase.map fun _ => "") ⟨[]⟩ 0 (config.map fun _ => ⟨""⟩) ⟨""⟩
  | .request _ _ config _ => .request ⟨""⟩ ⟨[]⟩ (config.map fun _ => ⟨""⟩) ⟨""⟩
  | .sign _ _ passphrase _ extensions _ =>
    .sign ⟨""⟩ ⟨⟨""⟩, ⟨""⟩, ⟨""⟩, ⟨""⟩⟩ (passphrase.map fun _ => "") 0
      (extensions.map fun _ => ⟨""⟩) ⟨""⟩

namespace Command

inductive Subcommand where
  | ecparam
  | genrsa
  | req
  | x509
  deriving Repr, DecidableEq

namespace Subcommand

def text : Subcommand → String
  | .ecparam => "ecparam"
  | .genrsa => "genrsa"
  | .req => "req"
  | .x509 => "x509"

def ofText? (s : String) : Option Subcommand :=
  [ecparam, genrsa, req, x509].find? (·.text = s)

theorem ofText?_text (sub : Subcommand) : ofText? sub.text = some sub := by
  cases sub <;> decide

theorem text_of_ofText? {s : String} {sub : Subcommand} (h : ofText? s = some sub) :
    sub.text = s := by
  simpa using List.find?_some h

def switches : Subcommand → List String
  | .ecparam => ["-genkey"]
  | .genrsa => ["-des3"]
  | .req => ["-x509", "-new", "-nodes", "-sha256"]
  | .x509 => ["-req", "-CAcreateserial", "-sha256"]

def options : Subcommand → List String
  | .ecparam => ["-out", "-name"]
  | .genrsa => ["-passout", "-out"]
  | .req => ["-key", "-passin", "-config", "-days", "-subj", "-out"]
  | .x509 => ["-in", "-CA", "-CAkey", "-CAserial", "-out", "-days", "-extfile", "-passin"]

end Subcommand

abbrev Flagged := String × Option String

def Flagged.arguments (f : Flagged) : List String := f.1 :: f.2.toList

def optional (flag : String) (value : Option String) : List Flagged :=
  value.toList.map fun value => (flag, some value)

/-- Takes flags and their values off the front of a list of arguments. Operands are what is left
    once an argument stands where a flag could and has no dash. -/
def readFlags (sub : Subcommand) : List String → Option (List Flagged × List String)
  | [] => some ([], [])
  | word :: rest =>
    if word ∈ sub.switches then
      (readFlags sub rest).map fun (flags, operands) => ((word, none) :: flags, operands)
    else if word ∈ sub.options then
      match rest with
      | [] => none
      | value :: rest =>
        (readFlags sub rest).map fun (flags, operands) => ((word, some value) :: flags, operands)
    else if word.toList.head? = some '-' then none
    else some ([], word :: rest)

section

variable {sub : Subcommand} {word : String}

theorem readFlags_switch (h : word ∈ sub.switches) (rest : List String) :
    readFlags sub (word :: rest) =
      (readFlags sub rest).map fun (flags, operands) => ((word, none) :: flags, operands) := by
  cases rest <;> simp only [readFlags, if_pos h]

theorem readFlags_option (h : word ∈ sub.options) (notSwitch : word ∉ sub.switches)
    (value : String) (rest : List String) :
    readFlags sub (word :: value :: rest) =
      (readFlags sub rest).map fun (flags, operands) =>
        ((word, some value) :: flags, operands) := by
  simp only [readFlags, if_neg notSwitch, if_pos h]

theorem readFlags_operand (notSwitch : word ∉ sub.switches) (notOption : word ∉ sub.options)
    (noDash : word.toList.head? ≠ some '-') (rest : List String) :
    readFlags sub (word :: rest) = some ([], word :: rest) := by
  cases rest <;> simp only [readFlags, if_neg notSwitch, if_neg notOption, if_neg noDash]

end

/-- Whatever is read, nothing is left out and nothing put in. -/
theorem arguments_of_readFlags {sub : Subcommand} {arguments operands : List String}
    {flags : List Flagged} (h : readFlags sub arguments = some (flags, operands)) :
    flags.flatMap Flagged.arguments ++ operands = arguments := by
  induction arguments using readFlags.induct sub generalizing flags with
  | case1 =>
    simp only [readFlags, Option.some.injEq, Prod.mk.injEq] at h
    simp [← h.1, ← h.2]
  | case2 word rest isSwitch ih =>
    rw [readFlags_switch isSwitch] at h
    obtain ⟨⟨more, operands⟩, read, same⟩ := Option.map_eq_some_iff.mp h
    obtain ⟨rfl, rfl⟩ := Prod.mk.inj same
    simpa [Flagged.arguments] using ih read
  | case3 word notSwitch isOption => simp [readFlags, if_neg notSwitch, if_pos isOption] at h
  | case4 word notSwitch isOption value rest ih =>
    rw [readFlags_option isOption notSwitch] at h
    obtain ⟨⟨more, operands⟩, read, same⟩ := Option.map_eq_some_iff.mp h
    obtain ⟨rfl, rfl⟩ := Prod.mk.inj same
    simpa [Flagged.arguments] using ih read
  | case5 word rest notSwitch notOption dash =>
    cases rest <;> simp [readFlags, if_neg notSwitch, if_neg notOption, if_pos dash] at h
  | case6 word rest notSwitch notOption noDash =>
    rw [readFlags_operand notSwitch notOption noDash] at h
    obtain ⟨rfl, rfl⟩ := Prod.mk.inj (Option.some.inj h)
    rfl

def ReadAs (sub : Subcommand) (arguments : List String) (flags : List Flagged) : Prop :=
  ∀ rest, readFlags sub (arguments ++ rest) =
    (readFlags sub rest).map fun (more, operands) => (flags ++ more, operands)

namespace ReadAs

variable {sub : Subcommand} {arguments others : List String} {flags more : List Flagged}

theorem append (first : ReadAs sub arguments flags) (second : ReadAs sub others more) :
    ReadAs sub (arguments ++ others) (flags ++ more) := by
  intro rest
  rw [List.append_assoc, first, second, Option.map_map]
  simp only [Function.comp_def, List.append_assoc]

theorem nil : ReadAs sub [] [] := by
  intro rest
  simp

theorem switch {flag : String} (h : flag ∈ sub.switches) (read : ReadAs sub arguments flags) :
    ReadAs sub (flag :: arguments) ((flag, none) :: flags) := by
  intro rest
  rw [List.cons_append, readFlags_switch h, read, Option.map_map]
  rfl

theorem valued {flag : String} (h : flag ∈ sub.options) (notSwitch : flag ∉ sub.switches)
    (value : String) (read : ReadAs sub arguments flags) :
    ReadAs sub (flag :: value :: arguments) ((flag, some value) :: flags) := by
  intro rest
  rw [List.cons_append, List.cons_append, readFlags_option h notSwitch, read, Option.map_map]
  rfl

theorem option {flag : String} (h : flag ∈ sub.options) (notSwitch : flag ∉ sub.switches)
    (value : Option String) : ReadAs sub (Command.option flag value) (optional flag value) := by
  cases value with
  | none => exact nil
  | some value => exact valued h notSwitch value nil

theorem before {operands : List String} (h : ReadAs sub arguments flags)
    (left : readFlags sub operands = some ([], operands)) :
    readFlags sub (arguments ++ operands) = some (flags, operands) := by
  simp only [h operands, left, Option.map_some, List.append_nil]

theorem alone (h : ReadAs sub arguments flags) : readFlags sub arguments = some (flags, []) := by
  have nothing : readFlags sub [] = some ([], []) := rfl
  simpa using h.before nothing

end ReadAs

structure Reading where
  sub : Subcommand
  flags : List Flagged
  operands : List String
  deriving Repr, DecidableEq

namespace Reading

def of? : List String → Option Reading
  | [] => none
  | word :: rest => do
    let sub ← Subcommand.ofText? word
    let (flags, operands) ← readFlags sub rest
    return ⟨sub, flags, operands⟩

def arguments (r : Reading) : List String :=
  r.sub.text :: (r.flags.flatMap Flagged.arguments ++ r.operands)

/-- What was read as a subcommand, as flags and as operands: all but the values. -/
def words (r : Reading) : Subcommand × List String × List String :=
  (r.sub, r.flags.map (·.1), r.operands)

def has (r : Reading) (flag : String) : Bool := (r.flags.lookup flag).isSome

def value? (r : Reading) (flag : String) : Option String := (r.flags.lookup flag).join

def path? (r : Reading) (flag : String) : Option Path := (r.value? flag).map Path.ofString

def number? (r : Reading) (flag : String) : Option Nat := (r.value? flag).bind (·.toNat?)

end Reading

/-- What a call asks for, as far as its arguments tell: of a passphrase only whether there is one,
    of a key on a curve not even that, and of an authority not its directory. -/
inductive Asked where
  | key (method : KeyMethod) (encrypted : Bool) (out : Path)
  | selfSign (key : Path) (encrypted : Bool) (subject : String) (days : Nat) (config : Option Path)
    (out : Path)
  | request (key : Path) (subject : String) (config : Option Path) (out : Path)
  | sign (request cert key serial : Path) (encrypted : Bool) (days : Nat)
    (extensions : Option Path) (out : Path)
  deriving Repr, DecidableEq

def askedOf : SigningCall → Asked
  | .key .ecc _ out => .key .ecc false out
  | .key .dsa passphrase out => .key .dsa passphrase.isSome out
  | .selfSign key passphrase subject days config out =>
    .selfSign key passphrase.isSome subject.print days config out
  | .request key subject config out => .request key subject.print config out
  | .sign request authority passphrase days extensions out =>
    .sign request authority.cert authority.key authority.serial passphrase.isSome days extensions
      out

namespace Reading

def asked? (r : Reading) : Option Asked :=
  match r.sub with
  | .ecparam => return .key .ecc false (← r.path? "-out")
  | .genrsa => return .key .dsa (r.has "-passout") (← r.path? "-out")
  | .req =>
    if r.has "-x509" then
      return .selfSign (← r.path? "-key") (r.has "-passin") (← r.value? "-subj")
        (← r.number? "-days") (r.path? "-config") (← r.path? "-out")
    else
      return .request (← r.path? "-key") (← r.value? "-subj") (r.path? "-config")
        (← r.path? "-out")
  | .x509 =>
    return .sign (← r.path? "-in") (← r.path? "-CA") (← r.path? "-CAkey") (← r.path? "-CAserial")
      (r.has "-passin") (← r.number? "-days") (r.path? "-extfile") (← r.path? "-out")

def ofCall : SigningCall → Reading
  | .key .ecc _ out =>
    ⟨.ecparam, [("-out", some out.text), ("-name", some curve), ("-genkey", none)], []⟩
  | .key .dsa passphrase out =>
    ⟨.genrsa,
      (if passphrase.isSome then [("-des3", none)] else []) ++
        optional "-passout" (passphrase.map fun _ => "env:" ++ passphraseVariable) ++
        [("-out", some out.text)],
      [rsaBits]⟩
  | .selfSign key passphrase subject days config out =>
    ⟨.req,
      [("-x509", none), ("-new", none), ("-nodes", none), ("-key", some key.text)] ++
        optional "-passin" (passphrase.map fun _ => "env:" ++ passphraseVariable) ++
        optional "-config" (config.map (·.text)) ++
        [("-sha256", none), ("-days", some (toString days)), ("-subj", some subject.print),
          ("-out", some out.text)],
      []⟩
  | .request key subject config out =>
    ⟨.req,
      [("-new", none), ("-key", some key.text), ("-out", some out.text)] ++
        optional "-config" (config.map (·.text)) ++ [("-subj", some subject.print)],
      []⟩
  | .sign request authority passphrase days extensions out =>
    ⟨.x509,
      [("-req", none), ("-in", some request.text), ("-CA", some authority.cert.text),
          ("-CAkey", some authority.key.text), ("-CAserial", some authority.serial.text),
          ("-CAcreateserial", none), ("-out", some out.text), ("-days", some (toString days)),
          ("-sha256", none)] ++
        optional "-extfile" (extensions.map (·.text)) ++
        optional "-passin" (passphrase.map fun _ => "env:" ++ passphraseVariable),
      []⟩

variable {sub : Subcommand} {arguments operands : List String} {flags : List Flagged}

theorem of?_of_readFlags (h : readFlags sub arguments = some (flags, operands)) :
    of? (sub.text :: arguments) = some ⟨sub, flags, operands⟩ := by
  simp [of?, Subcommand.ofText?_text, h]

theorem arguments_of_of? {r : Reading} (h : of? arguments = some r) : r.arguments = arguments := by
  cases arguments with
  | nil => simp [of?] at h
  | cons word rest =>
    simp only [of?, Option.bind_eq_bind, Option.bind_eq_some_iff] at h
    obtain ⟨sub, known, ⟨flags, operands⟩, read, same⟩ := h
    cases same
    simp only [Reading.arguments, Subcommand.text_of_ofText? known, arguments_of_readFlags read]

theorem of?_argumentsOf (call : SigningCall) : of? (argumentsOf call) = some (ofCall call) := by
  cases call with
  | key method passphrase out =>
    cases method with
    | ecc =>
      have whole : ReadAs .ecparam ["-out", out.text, "-name", curve, "-genkey"]
          [("-out", some out.text), ("-name", some curve), ("-genkey", none)] :=
        .valued (by decide) (by decide) _ <| .valued (by decide) (by decide) _ <|
        .switch (by decide) .nil
      exact of?_of_readFlags whole.alone
    | dsa =>
      have cipher : ReadAs .genrsa (if passphrase.isSome then ["-des3"] else [])
          (if passphrase.isSome then [("-des3", none)] else []) := by
        split
        · exact .switch (by decide) .nil
        · exact .nil
      have encrypted : ReadAs .genrsa (passphraseOption "-passout" passphrase)
          (optional "-passout" (passphrase.map fun _ => "env:" ++ passphraseVariable)) :=
        .option (by decide) (by decide) _
      have back : ReadAs .genrsa ["-out", out.text] [("-out", some out.text)] :=
        .valued (by decide) (by decide) _ .nil
      have bits : readFlags .genrsa [rsaBits] = some ([], [rsaBits]) :=
        readFlags_operand (by decide) (by decide) (by decide) []
      have read := ((cipher.append encrypted).append back).before bits
      rw [List.append_assoc] at read
      exact of?_of_readFlags read
  | selfSign key passphrase subject days config out =>
    have front : ReadAs .req ["-x509", "-new", "-nodes", "-key", key.text]
        [("-x509", none), ("-new", none), ("-nodes", none), ("-key", some key.text)] :=
      .switch (by decide) <| .switch (by decide) <| .switch (by decide) <|
      .valued (by decide) (by decide) _ .nil
    have back : ReadAs .req
        ["-sha256", "-days", toString days, "-subj", subject.print, "-out", out.text]
        [("-sha256", none), ("-days", some (toString days)), ("-subj", some subject.print),
          ("-out", some out.text)] :=
      .switch (by decide) <| .valued (by decide) (by decide) _ <|
      .valued (by decide) (by decide) _ <| .valued (by decide) (by decide) _ .nil
    exact of?_of_readFlags <| ReadAs.alone <|
      ((front.append (.option (by decide) (by decide) _)).append
        (.option (by decide) (by decide) _)).append back
  | request key subject config out =>
    have front : ReadAs .req ["-new", "-key", key.text, "-out", out.text]
        [("-new", none), ("-key", some key.text), ("-out", some out.text)] :=
      .switch (by decide) <| .valued (by decide) (by decide) _ <|
      .valued (by decide) (by decide) _ .nil
    exact of?_of_readFlags <| ReadAs.alone <|
      (front.append (.option (by decide) (by decide) _)).append
        (.valued (by decide) (by decide) _ .nil)
  | sign request authority passphrase days extensions out =>
    have front : ReadAs .x509
        ["-req", "-in", request.text, "-CA", authority.cert.text, "-CAkey", authority.key.text,
          "-CAserial", authority.serial.text, "-CAcreateserial", "-out", out.text, "-days",
          toString days, "-sha256"]
        [("-req", none), ("-in", some request.text), ("-CA", some authority.cert.text),
          ("-CAkey", some authority.key.text), ("-CAserial", some authority.serial.text),
          ("-CAcreateserial", none), ("-out", some out.text), ("-days", some (toString days)),
          ("-sha256", none)] :=
      .switch (by decide) <| .valued (by decide) (by decide) _ <|
      .valued (by decide) (by decide) _ <| .valued (by decide) (by decide) _ <|
      .valued (by decide) (by decide) _ <| .switch (by decide) <|
      .valued (by decide) (by decide) _ <| .valued (by decide) (by decide) _ <|
      .switch (by decide) .nil
    exact of?_of_readFlags <| ReadAs.alone <|
      (front.append (.option (by decide) (by decide) _)).append
        (.option (by decide) (by decide) _)

theorem words_ofCall (call : SigningCall) : (ofCall call).words = (ofCall call.blanked).words := by
  cases call with
  | key method passphrase out => cases method <;> cases passphrase <;> rfl
  | selfSign key passphrase subject days config out => cases passphrase <;> cases config <;> rfl
  | request key subject config out => cases config <;> rfl
  | sign request authority passphrase days extensions out =>
    cases passphrase <;> cases extensions <;> rfl

theorem asked?_ofCall (call : SigningCall) : (ofCall call).asked? = some (askedOf call) := by
  cases call with
  | key method passphrase out => cases method <;> cases passphrase <;> rfl
  | selfSign key passphrase subject days config out =>
    cases passphrase <;> cases config <;>
      simp [asked?, ofCall, has, value?, path?, number?, optional, List.lookup_cons, askedOf,
        Path.ofString]
  | request key subject config out => cases config <;> rfl
  | sign request authority passphrase days extensions out =>
    cases passphrase <;> cases extensions <;>
      simp [asked?, ofCall, has, value?, path?, number?, optional, List.lookup_cons, askedOf,
        Path.ofString]

end Reading

theorem passphraseOption_eq {passphrase passphrase' : Option String}
    (h : passphrase.isSome = passphrase'.isSome) (flag : String) :
    passphraseOption flag passphrase = passphraseOption flag passphrase' := by
  cases passphrase <;> cases passphrase' <;> first | rfl | cases h

theorem argumentsOf_eq {call call' : SigningCall} (h : askedOf call = askedOf call') :
    argumentsOf call = argumentsOf call' := by
  rcases call with ⟨_ | _, passphrase, out⟩ | ⟨key, passphrase, subject, days, config, out⟩ |
      ⟨key, subject, config, out⟩ | ⟨request, authority, passphrase, days, extensions, out⟩ <;>
    rcases call' with ⟨_ | _, passphrase', out'⟩ |
      ⟨key', passphrase', subject', days', config', out'⟩ | ⟨key', subject', config', out'⟩ |
      ⟨request', authority', passphrase', days', extensions', out'⟩ <;>
    simp only [askedOf, reduceCtorEq, Asked.key.injEq, Asked.selfSign.injEq, Asked.request.injEq,
      Asked.sign.injEq, false_and, true_and] at h
  · rw [argumentsOf, argumentsOf, keyArguments, keyArguments, h]
  · obtain ⟨encrypted, rfl⟩ := h
    simp only [argumentsOf, keyArguments, passphraseOption_eq encrypted, encrypted]
  · obtain ⟨rfl, encrypted, print, rfl, rfl, rfl⟩ := h
    simp only [argumentsOf, selfSignArguments, passphraseOption_eq encrypted, print]
  · obtain ⟨rfl, print, rfl, rfl⟩ := h
    simp only [argumentsOf, requestArguments, print]
  · obtain ⟨rfl, cert, key, serial, encrypted, rfl, rfl, rfl⟩ := h
    simp only [argumentsOf, signArguments, passphraseOption_eq encrypted, cert, key, serial]

/-- What the arguments of a call say to a program that reads them from left to right. -/
structure Unambiguous (call : SigningCall) : Prop where
  read : Reading.of? (argumentsOf call) = some (Reading.ofCall call)
  whole : (Reading.ofCall call).arguments = argumentsOf call
  words : (Reading.ofCall call).words = (Reading.ofCall call.blanked).words
  asked : (Reading.ofCall call).asked? = some (askedOf call)
  same_iff (call' : SigningCall) :
    argumentsOf call = argumentsOf call' ↔ askedOf call = askedOf call'

theorem argumentsOf_unambiguous (call : SigningCall) : Unambiguous call where
  read := Reading.of?_argumentsOf call
  whole := Reading.arguments_of_of? (Reading.of?_argumentsOf call)
  words := Reading.words_ofCall call
  asked := Reading.asked?_ofCall call
  same_iff call' := by
    refine ⟨fun same => ?_, argumentsOf_eq⟩
    have readings : Reading.ofCall call = Reading.ofCall call' := by
      have read := Reading.of?_argumentsOf call
      rw [same, Reading.of?_argumentsOf] at read
      exact (Option.some.inj read).symm
    have asked := Reading.asked?_ofCall call
    rw [readings, Reading.asked?_ofCall] at asked
    exact (Option.some.inj asked).symm

example : Reading.of? (argumentsOf (.request ⟨"-x509"⟩ ⟨[]⟩ (some ⟨"-new"⟩) ⟨"req"⟩)) =
    some ⟨.req, [("-new", none), ("-key", some "-x509"), ("-out", some "req"),
      ("-config", some "-new"), ("-subj", some "")], []⟩ := by
  decide

end Command

end NetworkCa

import Mathlib.Data.List.Basic
import NetworkCa.Proofs.Path.LinkSteps
import NetworkCa.Proofs.Path.Styles

namespace NetworkCa.Path

variable {a b us vs : List String} {cwd cwd' : Location} {base base' p u v : Path}
variable {style : LinkStyle}

theorem isAbsolute_of_components (h : p.components = us.map .name) : p.isAbsolute = false := by
  rw [Bool.eq_false_iff]
  intro rooted
  rw [components, if_pos rooted] at h
  cases us <;> cases h

theorem foldl_follow_of_components (h : p.components = us.map .name) (l : Location) :
    p.steps.foldl follow l = l ++ us := by
  have nonempty : ∀ s ∈ p.steps, s ≠ "" := fun s hs => by simpa using (List.mem_filter.1 hs).2
  have inner : (p.steps.map Component.ofStep).filter (· ≠ .current) = us.map .name := by
    rw [components, if_neg (by simp [isAbsolute_of_components h])] at h
    split at h
    · cases us <;> cases h
    · exact h
  have down (l : Location) : (us.map Component.name).foldl stepFrom l = l ++ us := by
    clear h inner
    induction us generalizing l with
    | nil => simp
    | cons s us ih =>
      rw [List.map_cons, List.foldl_cons, ih, stepFrom, List.append_assoc]
      rfl
  rw [← foldl_stepFrom nonempty, inner, down]

theorem absolute_join_names (h : p.components = us.map .name) (cwd : Location) (base : Path) :
    (base.join p).absolute cwd = base.absolute cwd ++ us := by
  rw [absolute_join cwd base (isAbsolute_of_components h), foldl_follow_of_components h]

theorem shortestRelative_append (front : List String) :
    shortestRelative (front ++ a) (front ++ b) = shortestRelative a b := by
  rw [shortestRelative_eq, commonLength_append, via_append, ← shortestRelative_eq]

theorem legacyRelative_append (front : List String) (apart : ¬ Nested a b) :
    legacyRelative (front ++ a) (front ++ b) = legacyRelative a b := by
  have apart' : ¬ Nested (front ++ a) (front ++ b) := by rwa [nested_append]
  rw [legacyRelative_of_apart apart', shortestRelative_append, legacyRelative_of_apart apart]

theorem segments_join_names (h : p.components = us.map .name) (deep : base.absolute cwd ≠ []) :
    ((base.join p).absolute cwd).segments = ("" :: base.absolute cwd) ++ us := by
  rw [absolute_join_names h, segments_of_ne_nil (List.append_ne_nil_of_left_ne_nil deep us)]
  rfl

theorem absolute_ne_nil (h : base.absolutize cwd ≠ ⟨"/"⟩) : base.absolute cwd ≠ [] := by
  intro root
  rw [absolutize, root] at h
  exact h (congrArg Path.mk (congrArg ("/" ++ ·) String.intercalate_nil))

section Below

variable (hu : u.components = us.map .name) (hv : v.components = vs.map .name)

include hu hv

/-- Below a common base other than the root, the base does not show in the path from one directory
    to the other, under the legacy style only if neither directory contains the other. -/
theorem relative_below (deep : base.absolute cwd ≠ []) (free : style = .shortest ∨ ¬ Nested us vs) :
    relative style cwd (base.join u) (base.join v) = shortestRelative us vs := by
  unfold relative
  rw [segments_join_names hu deep, segments_join_names hv deep]
  cases style with
  | shortest => exact shortestRelative_append _
  | legacy =>
    have apart : ¬ Nested us vs := free.resolve_left (by simp)
    exact (legacyRelative_append _ apart).trans (legacyRelative_of_apart apart)

theorem segments_linkTarget_of_nested (deep : base.absolute cwd ≠ []) (nested : Nested us vs)
    (certName : String) :
    ∃ k, (ofString (linkTarget .legacy cwd (base.join u) (base.join v) certName)).segments =
      "." :: (List.replicate k ".." ++ "" :: (base.absolute cwd ++ vs) ++
        (ofString certName).segments) := by
  have plain : ∀ s ∈ base.absolute cwd ++ vs, PlainName s := by
    rw [← absolute_join_names hv]
    exact fun _ => plainName_of_mem_absolute
  have filled : base.absolute cwd ++ vs ≠ [] := List.append_ne_nil_of_left_ne_nil deep vs
  have below : Nested ((base.join u).absolute cwd).segments
      ((base.join v).absolute cwd).segments := by
    rw [segments_join_names hu deep, segments_join_names hv deep, nested_append]
    exact nested
  have led : (ofString (relative .legacy cwd (base.join u) (base.join v))).segments =
      List.replicate ((base.join u).absolute cwd).segments.length ".." ++
        "" :: (base.absolute cwd ++ vs) := by
    unfold relative
    rw [segments_legacyRelative fun _ => plainName_of_mem_absolute, divergence_of_nested below, via,
      List.drop_zero, Nat.sub_zero, segments_join_names hv deep, List.cons_append]
  refine ⟨((base.join u).absolute cwd).segments.length, ?_⟩
  obtain ⟨front, segments, same | cut | ⟨dot, _⟩⟩ :=
    segments_underRelative (relative .legacy cwd (base.join u) (base.join v)) certName
  · rw [linkTarget, segments, same, led]
  · -- The last segment is a name: nothing is left out behind it.
    obtain ⟨init, last, names⟩ := (List.eq_nil_or_concat _).resolve_left filled
    rw [List.concat_eq_append] at names
    have ends := congrArg List.getLast? (led.symm.trans cut)
    rw [names, ← List.cons_append, ← List.append_assoc, List.getLast?_concat,
      List.getLast?_concat, Option.some.injEq] at ends
    exact absurd ends (plain last (by simp [names])).ne_empty
  · rw [dot, segments_dot] at led
    have short := congrArg List.length led
    have deeper := two_le_length_segments ((base.join u).absolute cwd)
    simp only [List.length_singleton, List.length_append, List.length_replicate] at short
    omega

theorem base_eq_of_linkTarget_eq (deep : base.absolute cwd ≠ []) (deep' : base'.absolute cwd' ≠ [])
    (nested : Nested us vs) {certName : String}
    (same : linkTarget .legacy cwd (base.join u) (base.join v) certName =
      linkTarget .legacy cwd' (base'.join u) (base'.join v) certName) :
    base.absolute cwd = base'.absolute cwd' := by
  obtain ⟨k, here⟩ := segments_linkTarget_of_nested hu hv deep nested certName
  obtain ⟨k', there⟩ := segments_linkTarget_of_nested hu hv deep' nested certName
  rw [same, there, List.cons.injEq, List.append_cancel_right_eq] at here
  have climb : "" ∉ List.replicate k' ".." := fun member =>
    absurd (List.eq_of_mem_replicate member) (by decide)
  have names : "" ∉ base'.absolute cwd' ++ vs := by
    rw [← absolute_join_names hv]
    exact fun member => (plainName_of_mem_absolute member).ne_empty rfl
  have tails := ((List.append_cons_inj_of_notMem climb names).1 here.2).2.2
  exact (List.append_cancel_right tails).symm

/-- Moved from one base to another, neither of them the root, two directories keep the target of
    the link between them, and the link still names the certificate at its new place. A link of the
    legacy style is kept only if neither directory contains the other: it spells the base out. -/
theorem linkTarget_relocated_iff (deep : base.absolutize cwd ≠ ⟨"/"⟩)
    (deep' : base'.absolutize cwd' ≠ ⟨"/"⟩) (style : LinkStyle) (certName : String) :
    (linkTarget style cwd (base.join u) (base.join v) certName =
        linkTarget style cwd' (base'.join u) (base'.join v) certName ↔
      style = .shortest ∨ ¬ Nested us vs ∨ base.absolutize cwd = base'.absolutize cwd') ∧
    (style = .shortest ∨ ¬ Nested us vs → PlainName certName →
      resolve ((base'.join u).absolutize cwd').steps
          (linkTarget style cwd (base.join u) (base.join v) certName) =
        ((base'.join v).absolutize cwd').steps ++ [certName]) := by
  have below := absolute_ne_nil deep
  have below' := absolute_ne_nil deep'
  have kept (free : style = .shortest ∨ ¬ Nested us vs) :
      linkTarget style cwd (base.join u) (base.join v) certName =
        linkTarget style cwd' (base'.join u) (base'.join v) certName := by
    rw [linkTarget, linkTarget, relative_below hu hv below free, relative_below hu hv below' free]
  refine ⟨⟨fun same => ?_, fun free => ?_⟩, fun free plain => ?_⟩
  · cases style with
    | shortest => exact .inl rfl
    | legacy =>
      by_cases nested : Nested us vs
      · have bases := base_eq_of_linkTarget_eq hu hv below below' nested same
        exact .inr (.inr (congrArg Location.path bases))
      · exact .inr (.inl nested)
  · rcases free with shortest | apart | place
    · exact kept (.inl shortest)
    · exact kept (.inr apart)
    · have bases : base.absolute cwd = base'.absolute cwd' := by
        rw [← steps_absolutize, place, steps_absolutize]
      unfold linkTarget relative
      rw [absolute_join_names hu, absolute_join_names hv, absolute_join_names hu,
        absolute_join_names hv, bases]
  · rw [kept free, steps_absolutize, steps_absolutize, linkTarget, resolve_underRelative _ _ plain,
      resolve_relative]

end Below

/-- Two directories side by side keep their link on the move from a relative base to an absolute
    one. The legacy link of a directory to one inside it is another one at another base. -/
theorem linkTarget_relocated_of_siblings :
    linkTarget .legacy ["home"] ((⟨"net"⟩ : Path).join ⟨"peers//0"⟩)
          ((⟨"net"⟩ : Path).join ⟨"CA"⟩) "ca.pem" =
        linkTarget .legacy [] ((⟨"/srv/./old"⟩ : Path).join ⟨"peers//0"⟩)
          ((⟨"/srv/./old"⟩ : Path).join ⟨"CA"⟩) "ca.pem" ∧
      resolve ["srv", "old", "peers", "0"] (linkTarget .legacy ["home"]
          ((⟨"net"⟩ : Path).join ⟨"peers//0"⟩) ((⟨"net"⟩ : Path).join ⟨"CA"⟩) "ca.pem") =
        ["srv", "old", "CA", "ca.pem"] ∧
      linkTarget .legacy ["home"] ((⟨"net"⟩ : Path).join ⟨""⟩)
          ((⟨"net"⟩ : Path).join ⟨"CA"⟩) "ca.pem" ≠
        linkTarget .legacy [] ((⟨"/srv/./old"⟩ : Path).join ⟨""⟩)
          ((⟨"/srv/./old"⟩ : Path).join ⟨"CA"⟩) "ca.pem" := by
  have peers : (⟨"peers//0"⟩ : Path).components = ["peers", "0"].map .name := by decide +kernel
  have here : (⟨""⟩ : Path).components = ([] : List String).map .name := by decide +kernel
  have ca : (⟨"CA"⟩ : Path).components = ["CA"].map .name := by decide +kernel
  have deep : (⟨"net"⟩ : Path).absolutize ["home"] ≠ ⟨"/"⟩ := by decide +kernel
  have deep' : (⟨"/srv/./old"⟩ : Path).absolutize [] ≠ ⟨"/"⟩ := by decide +kernel
  have plain : PlainName "ca.pem" := ⟨by decide, by decide, by decide, by decide⟩
  have apart : ¬ Nested ["peers", "0"] ["CA"] := by decide
  obtain ⟨kept, resolves⟩ := linkTarget_relocated_iff peers ca deep deep' .legacy "ca.pem"
  refine ⟨kept.2 (.inr (.inl apart)), (resolves (.inr apart) plain), fun same => ?_⟩
  have moved := (linkTarget_relocated_iff here ca deep deep' .legacy "ca.pem").1.1 same
  exact absurd moved (by decide +kernel)

end NetworkCa.Path

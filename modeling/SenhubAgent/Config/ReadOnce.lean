import SenhubAgent.Config.Substitute

/-!
# Substitution against one reading

`substituteString` means to read a text once: `$` for `$$`, the resolved value for a
reference, the rest as it stands, and no value read again. The three passes get there for
every text but those of two kinds:

- a reference with `$$` in its name, which is looked up with the sentinel in it and so is
  never found;
- a file or secret reference without a default whose text holds `:-`, as in `${file:-x}`.
  `hasDefault` is true of it, so a missing file gives an empty value in place of an error.

`substitute_readOnce_iff` is that statement, for all values the sources may give.
-/

namespace SenhubAgent.Config

open Lib

/-- The callback resolves the reference as a one-pass reading does, whatever the sources. -/
structure Reference.Plain (r : Reference) : Prop where
  name : occurs ['$', '$'] r.ref = false
  dflt : r.kind = .env ∨ r.dflt.isSome = true ∨ occurs [':', '-'] r.render = false

/-! ## Where the two agree -/

theorem escapeDollar_of_single {s : Text} (h : occurs ['$', '$'] s = false) : escapeDollar s = s := by
  induction s with
  | nil => rfl
  | cons c s ih =>
    rw [occurs_cons, Bool.or_eq_false_iff] at h
    rw [escapeDollar_cons h.1, ih h.2]

theorem unescape_of_single {s : Text} (h : occurs ['$', '$'] s = false) : unescape s = s := by
  induction s with
  | nil => rfl
  | cons c s ih =>
    rw [occurs_cons, Bool.or_eq_false_iff] at h
    rw [unescape.eq_2, ih h.2]
    rintro t rfl rfl
    cases h.1

variable {r : Reference} {ts : List Token} {f : Reference → Except Unresolved Text}
    {dollar a d : Text}

/-- A default stands after `:-`. -/
theorem occurs_of_default (h : r.dflt.isSome = true) : occurs [':', '-'] r.render = true := by
  obtain ⟨d, hd⟩ := Option.isSome_iff_exists.mp h
  refine List.any_eq_true.mpr ⟨':' :: '-' :: (d ++ ['}']), ?_, rfl⟩
  rw [List.mem_tails]
  refine ⟨'$' :: '{' :: (kindWord r.kind ++ r.ref), ?_⟩
  simp [Reference.render, Reference.body, hd]

theorem resolveCode_eq_resolveOnce (src : Sources) (h : r.Plain) :
    resolveCode src r = resolveOnce src r := by
  unfold resolveCode resolveOnce
  rw [escapeDollar_of_single h.name, unescape_of_single h.name]
  cases hd : r.dflt.isSome with
  | true => rw [occurs_of_default hd]
  | false =>
    have hnone : r.dflt = none := Option.isNone_iff_eq_none.mp (by simpa using hd)
    rcases h.dflt with hkind | hsome | hdash
    · -- an unset variable is empty with or without an empty default
      rw [hkind, hnone]
      cases src.lookupEnv r.ref <;> cases occurs [':', '-'] r.render <;> rfl
    · rw [hd] at hsome
      cases hsome
    · rw [hdash]

/-! ## Where they part -/

theorem emit_eq_error {e : Unresolved} (h : emit dollar f ts = .error e) :
    ∃ r, .ref r ∈ ts ∧ f r = .error e := by
  induction ts with
  | nil => cases h
  | cons t ts ih =>
    rw [emit] at h
    cases hp : piece dollar f t with
    | error e' =>
      rw [hp] at h
      cases t with
      | ref r => exact ⟨r, List.mem_cons_self, hp.trans (congrArg _ (Except.error.inj h))⟩
      | _ => cases hp
    | ok v =>
      rw [hp] at h
      cases ho : emit dollar f ts with
      | ok out =>
        rw [ho] at h
        cases h
      | error e' =>
        rw [ho] at h
        obtain ⟨r, hr, hf⟩ := ih (ho.trans (congrArg _ (Except.error.inj h)))
        exact ⟨r, List.mem_cons_of_mem _ hr, hf⟩

theorem emit_cons_eq_ok {t : Token} (h : emit dollar f (t :: ts) = .ok a) :
    ∃ v out, piece dollar f t = .ok v ∧ emit dollar f ts = .ok out ∧ a = v ++ out := by
  rw [emit] at h
  cases hp : piece dollar f t with
  | error e =>
    rw [hp] at h
    cases h
  | ok v =>
    cases ho : emit dollar f ts with
    | error e =>
      rw [hp, ho] at h
      cases h
    | ok out =>
      rw [hp, ho] at h
      exact ⟨v, out, rfl, rfl, (Except.ok.inj h).symm⟩

theorem piece_of_emit_eq_ok (h : emit dollar f ts = .ok a) :
    ∀ t ∈ ts, ∃ v, piece dollar f t = .ok v := by
  induction ts generalizing a with
  | nil => nofun
  | cons t ts ih =>
    obtain ⟨v, out, hv, hout, -⟩ := emit_cons_eq_ok h
    exact List.forall_mem_cons.mpr ⟨⟨v, hv⟩, ih hout⟩

/-- Emitting shorter pieces gives a shorter text. -/
theorem emit_length {d' : Text} {g : Reference → Except Unresolved Text} {b : Text}
    (ha : emit d f ts = .ok a) (hb : emit d' g ts = .ok b)
    (hle : ∀ t ∈ ts, ∀ v w, piece d f t = .ok v → piece d' g t = .ok w → v.length ≤ w.length) :
    a.length ≤ b.length ∧
      ((∃ t ∈ ts, ∀ v w, piece d f t = .ok v → piece d' g t = .ok w → v.length < w.length) →
        a.length < b.length) := by
  induction ts generalizing a b with
  | nil =>
    cases ha
    cases hb
    exact ⟨Nat.le_refl _, nofun⟩
  | cons t ts ih =>
    obtain ⟨v, out, hv, hout, rfl⟩ := emit_cons_eq_ok ha
    obtain ⟨w, out', hw, hout', rfl⟩ := emit_cons_eq_ok hb
    obtain ⟨ht, hts⟩ := List.forall_mem_cons.mp hle
    obtain ⟨hout, hlt⟩ := ih hout hout' hts
    have hvw := ht v w hv hw
    rw [List.length_append, List.length_append]
    refine ⟨Nat.add_le_add hvw hout, ?_⟩
    rintro ⟨t', ht', hstrict⟩
    rcases List.mem_cons.mp ht' with rfl | hin
    · exact Nat.add_lt_add_of_lt_of_le (hstrict v w hv hw) hout
    · exact Nat.add_lt_add_of_le_of_lt hvw (hlt ⟨t', hin, hstrict⟩)

/-- Sources where every name has the value `v` but those that are `lost`. -/
def sample (lost : RefKind → Text → Bool) (v : Text) : Sources where
  lookupEnv name := if '\x00' ∈ name ∨ lost .env name then none else some v
  readFile name := if '\x00' ∈ name ∨ lost .file name then none else some v
  getSecret name := if '\x00' ∈ name ∨ lost .secret name then .notFound else .value v
  env_nul _ h := if_pos (.inl h)
  file_nul _ h := if_pos (.inl h)
  secret_nul _ _ h := by rw [if_pos (.inl h)]; nofun

section Sample

variable {lost : RefKind → Text → Bool} {v : Text}

theorem nulFree_sample (hv : '\x00' ∉ v) : (sample lost v).NulFree where
  env h := by
    simp only [sample, Option.ite_none_left_eq_some, Option.some.injEq] at h
    exact h.2 ▸ hv
  file h := by
    simp only [sample, Option.ite_none_left_eq_some, Option.some.injEq] at h
    exact h.2 ▸ hv
  secret h := by
    simp only [sample] at h
    split at h
    next => cases h
    next => exact SecretLookup.value.inj h ▸ hv

variable {kind : RefKind}

theorem resolve_sample_known {name : Text} (hname : '\x00' ∉ name) (hlost : lost kind name = false)
    (hv : trimText v = v) (d : Text) (b : Bool) :
    resolveReference (sample lost v) kind name d b = .ok v := by
  cases kind <;> simp [resolveReference, sample, hname, hlost, hv]

theorem resolve_sample_error {name : Text} {b : Bool} {e : Unresolved}
    (h : resolveReference (sample lost v) kind name d b = .error e) :
    e = ⟨kind, name⟩ ∧ b = false := by
  by_cases hlost : '\x00' ∈ name ∨ lost kind name = true
  · cases kind <;> cases b <;> simp_all [resolveReference, sample]
  · cases kind <;> simp [resolveReference, sample, hlost] at h

end Sample

theorem trimText_replicate (n : Nat) : trimText (List.replicate n 'x') = List.replicate n 'x' := by
  have hdrop : (List.replicate n 'x').dropWhile isSpace = List.replicate n 'x' := by
    cases n <;> rfl
  rw [trimText, hdrop, List.reverse_replicate, hdrop, List.reverse_replicate]

theorem nul_notMem_unescape {s : Text} (h : '\x00' ∉ s) : '\x00' ∉ unescape s := by
  induction s using double_induction with
  | nil => exact h
  | double s ih => simp_all [unescape]
  | cons c s hc ih => simp_all [unescape_cons hc]

/-- A name with `$$` in it is looked up with a NUL in it. -/
theorem nul_mem_escapeDollar {s : Text} (h : occurs ['$', '$'] s = true) : '\x00' ∈ escapeDollar s := by
  induction s using double_induction with
  | nil => cases h
  | double s ih => exact List.mem_cons_self
  | cons c s hc ih =>
    rw [occurs_cons, hc, Bool.false_or] at h
    rw [escapeDollar_cons hc]
    exact List.mem_cons_of_mem _ (ih h)

theorem length_unescape_le (s : Text) : (unescape s).length ≤ s.length := by
  induction s using double_induction with
  | nil => exact le_rfl
  | double s ih =>
    simp only [unescape, List.length_cons]
    omega
  | cons c s hc ih =>
    rw [unescape_cons hc]
    exact Nat.succ_le_succ ih

theorem exists_bound (m : Token → Nat) (ts : List Token) : ∃ n, ∀ t ∈ ts, m t < n := by
  induction ts with
  | nil => exact ⟨0, nofun⟩
  | cons t ts ih =>
    obtain ⟨n, hn⟩ := ih
    refine ⟨m t + 1 + n, List.forall_mem_cons.mpr ⟨by omega, fun t' ht' => ?_⟩⟩
    have := hn t' ht'
    omega

/-- The length of the default a reference is written with. -/
def Token.dfltLength : Token → Nat
  | .ref r => (unescape (r.dflt.getD [])).length
  | _ => 0

/-- A lost name gives the default or nothing. -/
theorem length_resolve_lost {kind : RefKind} {name w v : Text} {b : Bool} (hname : '\x00' ∈ name)
    (h : resolveReference (sample (fun _ _ => false) v) kind name d b = .ok w) :
    w.length ≤ d.length := by
  cases kind <;> cases b <;> simp_all [resolveReference, sample]

variable {s : Text}

theorem nul_notMem_ref (hs : '\x00' ∉ s) (hr : .ref r ∈ tokens 0 s) : '\x00' ∉ r.ref := by
  have hfree := nulFree_tokens hs (.ref r) hr
  exact hfree.1

/-- Give every name a value longer than any default: a name with `$$` in it is then missed. -/
theorem single_of_readOnce (hs : '\x00' ∉ s)
    (h : ∀ src : Sources, src.NulFree → substitute src s = readOnce src s)
    (hr : .ref r ∈ tokens 0 s) : occurs ['$', '$'] r.ref = false := by
  obtain ⟨n, hn⟩ := exists_bound Token.dfltLength (tokens 0 s)
  have htrim := trimText_replicate n
  generalize hv : List.replicate n 'x' = value at htrim
  have hlen : value.length = n := by rw [← hv, List.length_replicate]
  have hsrc : (sample (fun _ _ => false) value).NulFree := nulFree_sample (by simp [← hv])
  have hone {r : Reference} (hr : .ref r ∈ tokens 0 s) :
      resolveOnce (sample (fun _ _ => false) value) r = .ok value :=
    resolve_sample_known (nul_notMem_unescape (nul_notMem_ref hs hr)) rfl htrim _ _
  have hshorter {r : Reference} (hr : .ref r ∈ tokens 0 s) (hdouble : occurs ['$', '$'] r.ref = true)
      {v : Text} (hv : resolveCode (sample (fun _ _ => false) value) r = .ok v) :
      v.length < value.length :=
    hlen ▸ Nat.lt_of_le_of_lt (length_resolve_lost (nul_mem_escapeDollar hdouble) hv) (hn (.ref r) hr)
  have heq := h _ hsrc
  rw [substitute_eq_emit hsrc hs, readOnce] at heq
  cases hb : emit ['$'] (resolveOnce (sample (fun _ _ => false) value)) (tokens 0 s) with
  | error e =>
    obtain ⟨r', hr', he⟩ := emit_eq_error hb
    rw [hone hr'] at he
    cases he
  | ok b =>
    have hle (t : Token) (ht : t ∈ tokens 0 s) (v w : Text)
        (hv : piece ['$'] (resolveCode (sample (fun _ _ => false) value)) t = .ok v)
        (hw : piece ['$'] (resolveOnce (sample (fun _ _ => false) value)) t = .ok w) :
        v.length ≤ w.length := by
      cases t with
      | dollar | char c => rw [Except.ok.inj (hv.symm.trans hw)]
      | ref r =>
        rw [← Except.ok.inj ((hone ht).symm.trans hw)]
        cases hdouble : occurs ['$', '$'] r.ref with
        | true => exact (hshorter ht hdouble hv).le
        | false =>
          have hname : escapeDollar r.ref = r.ref := escapeDollar_of_single hdouble
          have hknown : resolveCode (sample (fun _ _ => false) value) r = .ok value :=
            resolve_sample_known (by rw [hname]; exact nul_notMem_ref hs ht) rfl htrim _ _
          rw [Except.ok.inj (hknown.symm.trans hv)]
    refine Bool.eq_false_iff.mpr fun hdouble =>
      Nat.lt_irrefl _ ((emit_length (heq.trans hb) hb hle).2 ⟨_, hr, fun v w hv hw => ?_⟩)
    rw [← Except.ok.inj ((hone hr).symm.trans hw)]
    exact hshorter hr hdouble hv

/-- Give every name a value but that of one reference: where the callback takes it to have
a default, the error of the one-pass reading is not reported. -/
theorem dflt_of_readOnce (hs : '\x00' ∉ s)
    (h : ∀ src : Sources, src.NulFree → substitute src s = readOnce src s)
    (hr : .ref r ∈ tokens 0 s) (hsingle : occurs ['$', '$'] r.ref = false) :
    r.kind = .env ∨ r.dflt.isSome = true ∨ occurs [':', '-'] r.render = false := by
  by_contra hnot
  obtain ⟨hkind, hnone, hdash⟩ : r.kind ≠ .env ∧ r.dflt.isSome = false ∧
      occurs [':', '-'] r.render = true := by simpa [not_or] using hnot
  have hsrc : (sample (fun k name => k == r.kind && name == r.ref) ['x']).NulFree :=
    nulFree_sample (by decide)
  generalize hlost : (fun k name => k == r.kind && name == r.ref : RefKind → Text → Bool) = lost at hsrc
  have hfails : resolveOnce (sample lost ['x']) r = .error ⟨r.kind, r.ref⟩ := by
    have hthis : lost r.kind r.ref = true := by simp [← hlost]
    unfold resolveOnce
    rw [unescape_of_single hsingle, hnone]
    cases hk : r.kind <;> simp_all [resolveReference, sample]
  have heq := h _ hsrc
  rw [substitute_eq_emit hsrc hs, readOnce] at heq
  cases hb : emit ['$'] (resolveOnce (sample lost ['x'])) (tokens 0 s) with
  | ok b =>
    obtain ⟨v, hv⟩ := piece_of_emit_eq_ok hb _ hr
    rw [piece, hfails] at hv
    cases hv
  | error e =>
    -- the one-pass reading can only report the lost name, the callback anything but it
    obtain ⟨r', hr', hone⟩ := emit_eq_error hb
    obtain ⟨r'', -, hcode⟩ := emit_eq_error (heq.trans hb)
    have he : e = ⟨r.kind, r.ref⟩ := by
      rw [(resolve_sample_error hone).1]
      cases hl : lost r'.kind (unescape r'.ref) with
      | true =>
        simp only [← hlost, Bool.and_eq_true, beq_iff_eq] at hl
        rw [hl.1, hl.2]
      | false =>
        have hknown := resolve_sample_known (nul_notMem_unescape (nul_notMem_ref hs hr')) hl
          (v := ['x']) (by decide) (unescape (r'.dflt.getD [])) r'.dflt.isSome
        cases hknown.symm.trans hone
    obtain ⟨he', hdash'⟩ := resolve_sample_error hcode
    obtain ⟨hkind', href'⟩ := Unresolved.mk.inj (he.symm.trans he')
    have hsingle' : occurs ['$', '$'] r''.ref = false := by
      refine Bool.eq_false_iff.mpr fun hdouble => nul_notMem_ref hs hr ?_
      rw [href']
      exact nul_mem_escapeDollar hdouble
    have hnone' : r''.dflt.isSome = false := by
      refine Bool.eq_false_iff.mpr fun hsome => ?_
      rw [occurs_of_default hsome] at hdash'
      cases hdash'
    have hr'' : r = r'' := by
      cases r
      cases r''
      simp_all [escapeDollar_of_single]
    rw [← hr'', hdash] at hdash'
    cases hdash'

/-- Substitution is one reading from the left, for all the values that variables, files
and secrets may have, exactly when no name in a reference holds `$$` and no file or secret
reference without a default holds `:-`. -/
theorem substitute_readOnce_iff (s : Text) (hs : '\x00' ∉ s) :
    (∀ src : Sources, src.NulFree → substitute src s = readOnce src s) ↔
      ∀ r, .ref r ∈ tokens 0 s → r.Plain := by
  constructor
  · intro h r hr
    have hsingle := single_of_readOnce hs h hr
    exact ⟨hsingle, dflt_of_readOnce hs h hr hsingle⟩
  · intro h src hsrc
    rw [substitute_eq_emit hsrc hs, readOnce]
    exact emit_congr fun r hr => resolveCode_eq_resolveOnce src (h r hr)

/-- A doubled dollar, then a reference whose default holds one. -/
def mixedText : Text := "$$$\x7benv:A:-b$$\x7d".toList

theorem substitute_readOnce_mixed :
    substitute (sample (fun _ _ => false) ['v']) mixedText =
      readOnce (sample (fun _ _ => false) ['v']) mixedText := by
  refine (substitute_readOnce_iff mixedText (by decide)).mpr ?_ _ (nulFree_sample (by decide))
  have htokens : tokens 0 mixedText = [.dollar, .ref ⟨.env, ['A'], some ['b', '$', '$']⟩] := by decide
  intro r hr
  rw [htokens, List.mem_cons, List.mem_singleton] at hr
  obtain rfl : r = ⟨.env, ['A'], some ['b', '$', '$']⟩ := by simpa using hr
  exact ⟨by decide, .inl rfl⟩

/-- Every name has the value `v`, and the one that is written `a$$b` is not found. -/
theorem substitute_misses_name :
    substitute (sample (fun _ _ => false) ['v']) "$\x7benv:a$$b\x7d".toList = .ok [] ∧
      readOnce (sample (fun _ _ => false) ['v']) "$\x7benv:a$$b\x7d".toList = .ok ['v'] :=
  ⟨rfl, rfl⟩

end SenhubAgent.Config

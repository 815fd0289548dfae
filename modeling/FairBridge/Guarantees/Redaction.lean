import FairBridge.Lib.Redact

/-!
No key is left behind an endpoint in a redacted text. What the scan puts into the text
begins with a unit that no endpoint has behind a digit and a slash, so nothing that
reaches across it is an endpoint with a key; and a redacted error is the error with every
text in it redacted, as long as it is made of arrays and plain objects.
-/

namespace FairBridge

/-- An endpoint with at least the first unit of a key behind it. -/
def keyedEndpoint : Regex UInt16 := .seq endpointRegex (.cls JsString.isKeyUnit)

/-- The parts of an endpoint. -/
theorem matches_endpointRegex {w : JsString} (h : endpointRegex.Matches w) :
    ∃ scheme host version : JsString, (scheme = asciiText "http://" ∨ scheme = asciiText "https://") ∧
      (∀ u ∈ host, JsString.isHostUnit u = true) ∧
      version ≠ [] ∧ (∀ u ∈ version, JsString.isDigit u = true) ∧
      w = scheme ++ (host ++ (asciiText "/v" ++ (version ++ asciiText "/"))) := by
  obtain ⟨_, _, hhttp, ⟨s, _, hs, ⟨_, _, hslashes, ⟨host, _, hhost, ⟨_, _, hv, ⟨version, _, hversion,
    ⟨_, hslash, rfl⟩, rfl⟩, rfl⟩, rfl⟩, rfl⟩, rfl⟩, rfl⟩ := h
  rw [Regex.matches_text.mp hhttp, Regex.matches_text.mp hslashes, Regex.matches_text.mp hv,
    eq_of_beq hslash]
  obtain ⟨_, hs, rfl⟩ | rfl := hs
  · rw [eq_of_beq hs]
    exact ⟨asciiText "https://", host, version, Or.inr rfl, hhost.2, hversion.1, hversion.2, rfl⟩
  · exact ⟨asciiText "http://", host, version, Or.inl rfl, hhost.2, hversion.1, hversion.2, rfl⟩

section Endpoint
variable {w l y : JsString} {d : UInt16}

theorem isDigit_ne_slash {u : UInt16} (h : JsString.isDigit u = true) : u ≠ codeUnit '/' := by
  rintro rfl
  exact absurd h (by decide)

theorem isHostUnit_ne_slash {u : UInt16} (h : JsString.isHostUnit u = true) :
    u ≠ codeUnit '/' := by
  rintro rfl
  exact absurd h (by decide)

theorem endpoint_head (h : endpointRegex.Matches w) : ∃ rest, w = codeUnit 'h' :: rest := by
  obtain ⟨_, _, _, rfl | rfl, _, _, _, rfl⟩ := matches_endpointRegex h
  · exact ⟨_, rfl⟩
  · exact ⟨_, rfl⟩

/-- An endpoint ends with a digit and a slash. -/
theorem endpoint_ends (h : endpointRegex.Matches w) :
    ∃ y d, JsString.isDigit d = true ∧ w = y ++ [d, codeUnit '/'] := by
  obtain ⟨scheme, host, version, _, _, hne, hversion, rfl⟩ := matches_endpointRegex h
  refine ⟨scheme ++ (host ++ (asciiText "/v" ++ version.dropLast)), version.getLast hne,
    hversion _ (List.getLast_mem hne), ?_⟩
  have hsplit := List.dropLast_append_getLast hne
  calc scheme ++ (host ++ (asciiText "/v" ++ (version ++ asciiText "/")))
      = scheme ++ (host ++ (asciiText "/v" ++
          ((version.dropLast ++ [version.getLast hne]) ++ asciiText "/"))) := by rw [hsplit]
    _ = _ := by simp only [List.append_assoc, List.singleton_append]; rfl

theorem count_slash_endpoint (h : endpointRegex.Matches w) : w.count (codeUnit '/') = 4 := by
  obtain ⟨scheme, host, version, hscheme, hhost, _, hversion, rfl⟩ := matches_endpointRegex h
  have hcount : scheme.count (codeUnit '/') = 2 := by
    obtain rfl | rfl := hscheme <;> decide
  have hh : host.count (codeUnit '/') = 0 :=
    List.count_eq_zero.mpr fun hmem => isHostUnit_ne_slash (hhost _ hmem) rfl
  have hv : version.count (codeUnit '/') = 0 :=
    List.count_eq_zero.mpr fun hmem => isDigit_ne_slash (hversion _ hmem) rfl
  rw [List.count_append, List.count_append, List.count_append, List.count_append, hcount, hh, hv]
  decide

theorem mem_of_append_singleton {a b z : JsString} {u : UInt16} (hb : b ≠ [])
    (h : z ++ [u] = a ++ b) : u ∈ b := by
  have hlast : (a ++ b).getLast? = some u := h ▸ List.getLast?_concat
  rw [List.getLast?_append_of_ne_nil a hb] at hlast
  exact List.mem_of_getLast? hlast

/-- An endpoint has no endpoint with a key in it: both have the same number of slashes, and
the outer one has one more at its end. -/
theorem endpoint_not_within (h : endpointRegex.Matches w) : ¬ keyedEndpoint.Within w := by
  rintro ⟨u, _, v, ⟨e, _, he, ⟨k, hk, rfl⟩, rfl⟩, hw⟩
  obtain ⟨y, d, _, hend⟩ := endpoint_ends h
  have hlast : codeUnit '/' ∈ [k] ++ v := by
    refine mem_of_append_singleton (a := u ++ e) (z := y ++ [d]) (List.cons_ne_nil k v) ?_
    rw [List.append_assoc y, List.append_assoc u, ← List.append_assoc e, ← hw]
    exact hend.symm
  have hcount := count_slash_endpoint h
  have heq := count_slash_endpoint he
  have hpos := List.count_pos_iff.mpr hlast
  rw [hw, List.append_assoc, List.count_append, List.count_append] at hcount
  omega

theorem ends_of_append {a b : JsString} {c : UInt16} (h : a ++ b = y ++ [d, c]) (hne : b ≠ [])
    (hone : b ≠ [c]) : ∃ y', b = y' ++ [d, c] := by
  obtain ⟨y', _, hb⟩ | ⟨z, _, hb⟩ := List.append_eq_append_iff.mp h
  · exact ⟨y', hb⟩
  · match z, hb with
    | [], hb => exact ⟨[], hb.symm⟩
    | [_], hb => exact absurd (List.cons.inj hb).2.symm hone
    | _ :: _ :: _, hb =>
        have hnil := (List.cons.inj (List.cons.inj hb).2).2
        exact absurd (List.append_eq_nil_iff.mp hnil.symm).2 hne

theorem eq_append_of_append_cons {a b c z : JsString} {u : UInt16} (hu : u ∉ b)
    (h : a ++ u :: z = b ++ c) : ∃ a', a = b ++ a' ∧ a' ++ u :: z = c := by
  obtain ⟨b', hb, hc⟩ | ⟨a', ha, hc⟩ := List.append_eq_append_iff.mp h
  · cases b' with
    | nil => exact ⟨[], by rw [hb, List.append_nil, List.append_nil], hc⟩
    | cons c' b' =>
        obtain ⟨rfl, _⟩ := List.cons.inj hc
        exact absurd (hb ▸ List.mem_append_right a List.mem_cons_self) hu
  · exact ⟨a', ha, hc.symm⟩

/-- No endpoint with a key goes on with `<` behind a digit and a slash: `<` is only in its
host, and what is before it there is the host or the slashes of the scheme. -/
theorem keyed_not_across (h : keyedEndpoint.Matches l) (hd : JsString.isDigit d = true) :
    ¬ (y ++ [d, codeUnit '/', codeUnit '<']) <+: l := by
  rintro ⟨z, hz⟩
  obtain ⟨_, _, he, ⟨k, hk, rfl⟩, rfl⟩ := h
  obtain ⟨scheme, host, version, hscheme, hhost, _, hversion, rfl⟩ := matches_endpointRegex he
  have hbefore : codeUnit '<' ∉ scheme := by
    obtain rfl | rfl := hscheme <;> decide
  have hbehind : codeUnit '<' ∉ asciiText "/v" ++ (version ++ asciiText "/") ++ [k] := by
    rw [List.mem_append, List.mem_append, List.mem_append, List.mem_singleton]
    rintro ((hmem | hmem | hmem) | rfl)
    · exact absurd hmem (by decide)
    · exact absurd (hversion _ hmem) (by decide)
    · exact absurd hmem (by decide)
    · exact absurd hk (by decide)
  have hacross : (y ++ [d, codeUnit '/']) ++ codeUnit '<' :: z =
      scheme ++ (host ++ (asciiText "/v" ++ (version ++ asciiText "/") ++ [k])) := by
    simpa only [List.append_assoc, List.cons_append, List.nil_append] using hz
  obtain ⟨a, ha, hrest⟩ := eq_append_of_append_cons hbefore hacross
  obtain ⟨c, hc, _⟩ | ⟨c, _, hc⟩ := List.append_eq_append_iff.mp hrest
  · by_cases hempty : a = []
    · -- `<` is the first unit of the host
      rw [hempty, List.append_nil] at ha
      have hslash : (y ++ [d, codeUnit '/']).dropLast.getLast? = some (codeUnit '/') := by
        obtain rfl | rfl := hscheme <;> rw [ha] <;> decide
      have hdigit : (y ++ [d, codeUnit '/']).dropLast.getLast? = some d := by
        rw [List.dropLast_append_of_ne_nil (List.cons_ne_nil d _)]
        exact List.getLast?_concat
      exact isDigit_ne_slash hd (Option.some.inj (hdigit.symm.trans hslash))
    · have hmem : codeUnit '/' ∈ a :=
        mem_of_append_singleton (z := y ++ [d]) hempty ((List.append_assoc y _ _).trans ha)
      exact isHostUnit_ne_slash (hhost _ (hc ▸ List.mem_append_left c hmem)) rfl
  · exact hbehind (hc ▸ List.mem_append_right c List.mem_cons_self)

end Endpoint

theorem keyed_head {l : JsString} (h : keyedEndpoint.Matches l) :
    ∃ rest, l = codeUnit 'h' :: rest := by
  obtain ⟨_, v, hw, _, rfl⟩ := h
  obtain ⟨rest, rfl⟩ := endpoint_head hw
  exact ⟨rest ++ v, rfl⟩

theorem marker_eq : asciiText "<redacted>" = codeUnit '<' :: asciiText "redacted>" := by
  decide

theorem keyRegex_ne_nil : ¬ keyRegex.Matches [] := by
  rintro ⟨hne, _⟩
  exact hne rfl

section Scan
variable {s x : JsString}

/-- A redacted text begins as the text does, up to the first key that was cut out. -/
theorem prefix_redactRpcUrls (h : x <+: redactRpcUrls s) : x <+: s ∨
    ∃ y d, JsString.isDigit d = true ∧ (y ++ [d, codeUnit '/', codeUnit '<']) <+: x := by
  revert x
  refine Regex.replaceAfter_induction (P := fun s r => ∀ {x : JsString}, x <+: r → x <+: s ∨
    ∃ y d, JsString.isDigit d = true ∧ (y ++ [d, codeUnit '/', codeUnit '<']) <+: x)
    keyRegex_ne_nil ?_ ?_ ?_ s
  · exact fun h => Or.inl h
  · intro c cs _ _ ih x hx
    cases x with
    | nil => exact Or.inl (List.nil_prefix)
    | cons e x =>
        obtain ⟨rfl, htail⟩ := List.cons_prefix_cons.mp hx
        obtain hx | ⟨y, d, hd, hy⟩ := ih htail
        · exact Or.inl (List.cons_prefix_cons.mpr ⟨rfl, hx⟩)
        · exact Or.inr ⟨e :: y, d, hd, List.cons_prefix_cons.mpr ⟨rfl, hy⟩⟩
  · intro w k t hw hk _ x hx
    obtain ⟨y, d, hd, rfl⟩ := endpoint_ends hw
    obtain ⟨z, hz⟩ := hx
    obtain ⟨z', hw', _⟩ | ⟨x', rfl, hx'⟩ := List.append_eq_append_iff.mp hz
    · exact Or.inl ⟨z' ++ (k ++ t), by rw [← List.append_assoc, ← hw']⟩
    · cases x' with
      | nil => exact Or.inl ⟨k ++ t, by rw [List.append_nil]⟩
      | cons e x' =>
          rw [marker_eq] at hx'
          obtain ⟨rfl, _⟩ := List.cons.inj hx'
          refine Or.inr ⟨y, d, hd, x', ?_⟩
          simp only [List.append_assoc, List.cons_append, List.nil_append]

theorem not_keyed_redactRpcUrls : ¬ keyedEndpoint.Within (redactRpcUrls s) := by
  refine Regex.replaceAfter_induction (P := fun _ r => ¬ keyedEndpoint.Within r)
    keyRegex_ne_nil ?_ ?_ ?_ s
  · rintro ⟨u, l, v, hl, h⟩
    obtain ⟨rest, rfl⟩ := keyed_head hl
    exact absurd h.symm (by simp)
  · rintro c cs hnone _ ih ⟨u, l, v, hl, h⟩
    cases u with
    | cons e u =>
        obtain ⟨_, h⟩ := List.cons.inj h
        exact ih ⟨u, l, v, hl, h⟩
    | nil =>
        obtain ⟨rest, rfl⟩ := keyed_head hl
        obtain ⟨rfl, htail⟩ := List.cons.inj h
        obtain hkept | ⟨y, d, hd, hcut⟩ := prefix_redactRpcUrls (s := cs) ⟨v, htail.symm⟩
        · obtain ⟨w, _, hw, ⟨k, hk, rfl⟩, hl⟩ := hl
          obtain ⟨t, rfl⟩ := hkept
          refine hnone w [k] t hw ⟨List.cons_ne_nil k [], by simpa using hk⟩ ?_
          rw [← List.cons_append, hl, List.append_assoc]
        · exact keyed_not_across (y := codeUnit 'h' :: y) hl hd
            (List.cons_prefix_cons.mpr ⟨rfl, hcut⟩)
  · rintro w k t hw hk ih ⟨u, l, v, hl, h⟩
    obtain ⟨rest, hrest⟩ := keyed_head hl
    obtain ⟨a, _, h⟩ | ⟨a, hwu, h⟩ := List.append_eq_append_iff.mp h
    · -- it starts behind the endpoint: not in what was put there
      obtain ⟨b, _, h⟩ | ⟨b, hb, h⟩ := List.append_eq_append_iff.mp h
      · exact ih ⟨b, l, v, hl, h⟩
      · cases b with
        | nil => exact ih ⟨[], l, v, hl, h.symm⟩
        | cons e b =>
            rw [hrest] at h
            obtain ⟨rfl, _⟩ := List.cons.inj h
            have hmem : codeUnit 'h' ∈ asciiText "<redacted>" :=
              hb ▸ List.mem_append_right a List.mem_cons_self
            exact absurd hmem (by decide)
    · -- it starts in the endpoint: it neither ends there nor reaches across its end
      obtain ⟨b, hb, _⟩ | ⟨b, hb, h⟩ := List.append_eq_append_iff.mp h
      · exact endpoint_not_within hw ⟨u, l, b, hl, hb ▸ hwu⟩
      · cases b with
        | nil =>
            rw [List.append_nil] at hb
            exact endpoint_not_within hw ⟨u, l, [], hl, by rw [hwu, hb, List.append_nil]⟩
        | cons e b =>
            rw [marker_eq] at h
            obtain ⟨rfl, _⟩ := List.cons.inj h
            obtain ⟨y, d, hd, hends⟩ := endpoint_ends hw
            have hne : a ≠ [] := by
              rintro rfl
              exact absurd (List.cons.inj (hb.symm.trans hrest)).1 (by decide)
            have hone : a ≠ [codeUnit '/'] := by
              rintro rfl
              exact absurd (List.cons.inj (hb.symm.trans hrest)).1 (by decide)
            obtain ⟨y', rfl⟩ := ends_of_append (hwu.symm.trans hends) hne hone
            refine keyed_not_across hl hd (y := y') ⟨b, ?_⟩
            rw [hb]
            simp only [List.append_assoc, List.cons_append, List.nil_append]

theorem redactRpcUrls_eq_self (h : ¬ keyedEndpoint.Within s) : redactRpcUrls s = s := by
  refine Regex.replaceAfter_eq_self keyRegex_ne_nil ?_
  rintro ⟨u, _, v, ⟨w, k, hw, hk, rfl⟩, rfl⟩
  cases k with
  | nil => exact hk.1 rfl
  | cons c k =>
      refine h ⟨u, w ++ [c], k ++ v, ⟨w, [c], hw, ⟨c, hk.2 c List.mem_cons_self, rfl⟩, rfl⟩, ?_⟩
      simp only [List.append_assoc, List.cons_append, List.nil_append]

end Scan

namespace JsValue
variable {Leaf Hidden : Type} {plain : Hidden}

theorem length_redactEntries_le (plain : Hidden) (fields : List (JsString × JsValue Leaf Hidden)) :
    (redactEntries plain fields).length ≤ fields.length := by
  induction fields with
  | nil => exact Nat.le_refl 0
  | cons field rest ih =>
      rw [redactEntries]
      split
      · exact Nat.le_succ_of_le ih
      · exact Nat.succ_le_succ ih

theorem length_mapEntries (f : JsString → JsString)
    (fields : List (JsString × JsValue Leaf Hidden)) :
    (mapEntries f fields).length = fields.length := by
  induction fields with
  | nil => rfl
  | cons field rest ih => exact congrArg Nat.succ ih

mutual

/-- Plain values, and no others, come out as they are but for their texts. -/
theorem redactErrorFields_eq_iff (v : JsValue Leaf Hidden) :
    v.redactErrorFields plain = v.mapStrings redactRpcUrls ↔ v.Plain plain := by
  cases v with
  | string s => exact iff_of_true rfl trivial
  | other leaf => exact iff_of_true rfl trivial
  | array hidden items =>
      rw [redactErrorFields, mapStrings, Plain, array.injEq, redactItems_eq_iff items,
        eq_comm (a := plain)]
  | object hidden fields =>
      rw [redactErrorFields, mapStrings, Plain, object.injEq, redactEntries_eq_iff fields,
        eq_comm (a := plain)]

theorem redactItems_eq_iff (items : List (JsValue Leaf Hidden)) :
    redactItems plain items = mapItems redactRpcUrls items ↔ PlainItems plain items := by
  cases items with
  | nil => exact iff_of_true rfl trivial
  | cons item rest =>
      rw [redactItems, mapItems, PlainItems, List.cons.injEq, redactErrorFields_eq_iff item,
        redactItems_eq_iff rest]

theorem redactEntries_eq_iff (fields : List (JsString × JsValue Leaf Hidden)) :
    redactEntries plain fields = mapEntries redactRpcUrls fields ↔ PlainEntries plain fields := by
  match fields with
  | [] => exact iff_of_true rfl trivial
  | (key, inner) :: rest =>
      rw [redactEntries, mapEntries, PlainEntries]
      split
      · rename_i hkey
        refine iff_of_false (fun h => ?_) fun h => h.1 hkey
        have hlen := congrArg List.length h
        have hle := length_redactEntries_le plain rest
        rw [List.length_cons, length_mapEntries] at hlen
        omega
      · rename_i hkey
        rw [List.cons.injEq, Prod.mk.injEq, redactErrorFields_eq_iff inner,
          redactEntries_eq_iff rest]
        exact ⟨fun h => ⟨hkey, h.1.2, h.2⟩, fun h => ⟨⟨rfl, h.2.1⟩, h.2.2⟩⟩

end

/-- No key is left in a text, what has none is left alone, and a value is walked through
without a loss as long as it is plain. -/
theorem redaction_exact (v : JsValue Leaf Hidden) :
    ((∀ s : JsString, ¬ keyedEndpoint.Within (redactRpcUrls s) ∧
        redactRpcUrls (redactRpcUrls s) = redactRpcUrls s ∧
        (¬ keyedEndpoint.Within s → redactRpcUrls s = s)) ∧
      v.redactErrorFields plain = v.mapStrings redactRpcUrls) ↔ v.Plain plain := by
  rw [← redactErrorFields_eq_iff]
  refine ⟨And.right, fun h => ⟨fun s => ?_, h⟩⟩
  exact ⟨not_keyed_redactRpcUrls, redactRpcUrls_eq_self not_keyed_redactRpcUrls,
    redactRpcUrls_eq_self⟩

/-- What a reply of `{"__proto__":{"code":1}}` is read as loses its only field. -/
theorem proto_field_lost : ¬ ∀ v : JsValue Nat Unit,
    (∀ s : JsString, ¬ keyedEndpoint.Within (redactRpcUrls s) ∧
        redactRpcUrls (redactRpcUrls s) = redactRpcUrls s ∧
        (¬ keyedEndpoint.Within s → redactRpcUrls s = s)) ∧
      v.redactErrorFields () = v.mapStrings redactRpcUrls := by
  intro h
  have hlost := (h (.object () [(protoKey, .object () [(asciiText "code", .other 1)])])).2
  rw [redactErrorFields, mapStrings, object.injEq, redactEntries, if_pos rfl] at hlost
  cases hlost.2

end JsValue

end FairBridge

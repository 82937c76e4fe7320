import LockAudit.Proofs.Json.Numbers
import LockAudit.Proofs.Json.RoundTrip
import LockAudit.Proofs.Payload.Reordering

/-!
# `LockAudit.Proofs.Payload.Body` — the text of a payload carries its value

A payload is written as one text, and that text is all that the advisory service gets to see of it. What a
payload copies from a request without looking at it (the ranges that entries require may be any values)
is written as well, so what can be said of the text depends on the request.

* `distinct_toJson` — the value of a payload has distinct names in each object, at every depth.
* `hasNumber_of_toJson` — every number in it stands in the request.
* `text_carries` — if the request has no numbers but integers, the text is plain ASCII, reads back as the
  value, and is the text of no other value.
-/

namespace LockAudit

/-- Induction over entries: an entry may use what holds of the entries below it. -/
@[elab_as_elim]
theorem Node.induction {motive : Node → Prop} (step : ∀ n, (∀ e ∈ n.children, motive e.2) → motive n)
    (n : Node) : motive n := by
  refine step n fun e he => ?_
  have hsize : sizeOf e.2 < sizeOf n := by
    obtain ⟨version, integrity, requires, dev, dependencies⟩ := n
    cases dependencies with
    | none => cases he
    | some ns =>
      have hmem := List.sizeOf_lt_of_mem (show e ∈ ns from he)
      obtain ⟨key, below⟩ := e
      simp at hmem ⊢
      omega
  exact Node.induction step e.2
termination_by sizeOf n

namespace Payload

/-! ## Entries -/

variable {skip : Bool} {path : List String} {n : Node} {ns : List (String × Node)} {entry : Json}
  {es : List (String × Json)}

/-- What an entry has that is not a text or a mark: the ranges that it requires are copied, and the entries
    below it are read. -/
theorem members_of_node {version : String} {integrity : Option String}
    {requires : Option (List (String × Json))} {dev : Option Bool}
    {dependencies : Option (List (String × Node))}
    (h : node skip path entry = .ok (.mk version integrity requires dev dependencies)) :
    ∃ ms, entry = .obj ms ∧ (∀ rs, requires = some rs → Pairs.get? "requires" ms = some (.obj rs)) ∧
      ∀ ns, dependencies = some ns →
        ∃ es, Pairs.get? "dependencies" ms = some (.obj es) ∧ children skip path es = .ok ns := by
  cases entry with
  | obj ms =>
    rw [node] at h
    obtain ⟨version', -, h⟩ := exists_of_bind_ok h
    obtain ⟨requires', hr, h⟩ := exists_of_bind_ok h
    obtain ⟨dependencies', hd, h⟩ := exists_of_bind_ok h
    obtain ⟨-, -, rfl, -, rfl⟩ := Node.mk.inj (Except.ok.inj h)
    refine ⟨ms, rfl, ?_, ?_⟩
    · rintro rs rfl
      unfold entryRequires at hr
      split at hr
      · cases hr
      · next hget =>
        cases hr
        exact hget
      · cases hr
    · rintro ns rfl
      exact nested_some hd
  | _ => simp [node] at h

/-- Entries are read under their own names, in their order; some may be left out. -/
theorem names_children (h : children skip path es = .ok ns) :
    (ns.map (·.1)).Sublist (es.map (·.1)) := by
  induction es generalizing ns with
  | nil =>
    rw [children] at h
    rw [← Except.ok.inj h]
    exact List.Sublist.refl _
  | cons e es ih =>
    obtain ⟨key, value⟩ := e
    rw [children] at h
    split at h
    · exact (ih h).cons key
    · obtain ⟨n, -, h⟩ := exists_of_bind_ok h
      obtain ⟨ns', hns, h⟩ := exists_of_bind_ok h
      rw [← (Except.ok.inj h : (key, n) :: ns' = ns)]
      exact (ih hns).cons_cons key

theorem names_nodesJson (ns : List (String × Node)) : (nodesJson ns).map (·.1) = ns.map (·.1) := by
  rw [nodesJson_eq_map, List.map_map]
  rfl

/-- A number in the value of an entry stands in the entry that was read. -/
theorem hasNumber_of_nodeJson (h : node skip path entry = .ok n) {k : Number}
    (hk : (nodeJson n).HasNumber k) : entry.HasNumber k := by
  induction n using Node.induction generalizing path entry with
  | step n ih =>
    obtain ⟨version, integrity, requires, dev, dependencies⟩ := n
    obtain ⟨ms, rfl, hrequires, hbelow⟩ := members_of_node h
    rw [nodeJson, Json.hasNumber_obj_iff] at hk
    obtain ⟨p, hp, hk⟩ := hk
    simp only [List.mem_append, List.mem_singleton, Option.mem_toList, Option.map_eq_some_iff] at hp
    rcases hp with (((rfl | ⟨s, -, rfl⟩) | ⟨rs, hrs, rfl⟩) | ⟨b, -, rfl⟩) | hp
    · exact absurd hk (Json.not_hasNumber_str _)
    · exact absurd hk (Json.not_hasNumber_str _)
    · exact .member (Pairs.mem_of_get? (hrequires rs hrs)) hk
    · exact absurd hk (Json.not_hasNumber_bool _)
    · cases dependencies with
      | none => cases hp
      | some ns =>
        obtain ⟨es, hes, hread⟩ := hbelow ns rfl
        rw [nestedJson, List.mem_singleton] at hp
        subst hp
        obtain ⟨⟨key, v⟩, hv, hk⟩ := Json.hasNumber_obj_iff.mp hk
        obtain ⟨m, hm, rfl⟩ := mem_nodesJson_iff.mp hv
        obtain ⟨below, hmem, hnode⟩ := mem_children hread hm
        exact .member (Pairs.mem_of_get? hes) (.member hmem (ih (key, m) hm hnode hk))

/-- The value of an entry has distinct names in each object if the entry that was read has. -/
theorem distinct_nodeJson (hentry : entry.Distinct) (h : node skip path entry = .ok n) :
    (nodeJson n).Distinct := by
  induction n using Node.induction generalizing path entry with
  | step n ih =>
    obtain ⟨version, integrity, requires, dev, dependencies⟩ := n
    obtain ⟨ms, rfl, hrequires, hbelow⟩ := members_of_node h
    cases hentry with
    | obj _ hms =>
    have hget : ∀ {name v}, Pairs.get? name ms = some v → v.Distinct :=
      fun hv => hms _ (Pairs.mem_of_get? hv)
    rw [nodeJson]
    refine .obj ?_ fun p hp => ?_
    · cases integrity <;> cases requires <;> cases dev <;> cases dependencies <;>
        simp [nestedJson]
    simp only [List.mem_append, List.mem_singleton, Option.mem_toList, Option.map_eq_some_iff] at hp
    rcases hp with (((rfl | ⟨s, -, rfl⟩) | ⟨rs, hrs, rfl⟩) | ⟨b, -, rfl⟩) | hp
    · exact .str _
    · exact .str _
    · exact hget (hrequires rs hrs)
    · exact .bool _
    · cases dependencies with
      | none => cases hp
      | some ns =>
        obtain ⟨es, hes, hread⟩ := hbelow ns rfl
        rw [nestedJson, List.mem_singleton] at hp
        subst hp
        cases hget hes with
        | obj hnames hes =>
        refine .obj ?_ fun q hq => ?_
        · rw [names_nodesJson]
          exact hnames.sublist (names_children hread)
        · obtain ⟨m, hm, hq⟩ := mem_nodesJson_iff.mp hq
          obtain ⟨below, hmem, hnode⟩ := mem_children hread hm
          rw [hq]
          exact ih (q.1, m) hm (hes _ hmem) hnode

/-! ## Payloads -/

variable {policy : DevPolicy} {request : Json} {m : Manifest} {skipDev : Bool} {p : Payload}

/-- The nodes of a payload are read from entries of the sorted request. -/
theorem nodes_of_build (h : build policy request m skipDev = .ok p) :
    ∃ es, request.sorted.member? "dependencies" = some (.obj es) ∧
      (p.dependencies.map (·.1)).Sublist (es.map (·.1)) ∧
      ∀ key n, (key, n) ∈ p.dependencies → ∃ entry, (key, entry) ∈ es ∧
        node (skipDev && policy == .flagged) [key] entry = .ok n := by
  obtain ⟨es, ns, htop, hread, rfl⟩ := build_ok_iff.mp h
  refine ⟨es, topEntries_ok htop, ?_, fun key n hn => ?_⟩
  · exact (names_children hread).trans (List.filter_sublist.map _)
  · obtain ⟨entry, hentry, hnode⟩ := mem_children hread hn
    exact ⟨entry, (List.mem_filter.mp hentry).1, hnode⟩

/-- What a member that is an object has in it stands in the value. -/
theorem mem_of_member? {v : Json} {name : String} (h : v.member? name = some (.obj es)) :
    ∃ ms, v = .obj ms ∧ (name, .obj es) ∈ ms := by
  cases v with
  | obj ms => exact ⟨ms, rfl, Pairs.mem_of_get? h⟩
  | _ => cases h

/-- **Every number in a payload stands in the request.** -/
theorem hasNumber_of_toJson (h : build policy request m skipDev = .ok p) {k : Number}
    (hk : p.toJson.HasNumber k) : request.HasNumber k := by
  obtain ⟨es, hes, -, hnodes⟩ := nodes_of_build h
  obtain ⟨ms, hms, hmem⟩ := mem_of_member? hes
  rw [← Json.hasNumber_sorted_iff, hms]
  -- All that a payload has beside the tree are texts and one truth value.
  have hnone : ∀ rs : List (String × String), ¬ (Json.obj (rs.map fun r => (r.1, .str r.2))).HasNumber k := by
    simp
  rw [toJson, Json.hasNumber_obj_iff] at hk
  obtain ⟨q, hq, hk⟩ := hk
  simp only [List.mem_append, List.mem_cons, List.not_mem_nil, or_false, Option.mem_toList,
    Option.map_eq_some_iff] at hq
  rcases hq with (⟨s, -, rfl⟩ | ⟨s, -, rfl⟩) | rfl | rfl | rfl | rfl | rfl
  · exact absurd hk (Json.not_hasNumber_str _)
  · exact absurd hk (Json.not_hasNumber_str _)
  · exact absurd hk (hnone _)
  · obtain ⟨⟨key, v⟩, hv, hk⟩ := Json.hasNumber_obj_iff.mp hk
    obtain ⟨n, hn, rfl⟩ := mem_nodesJson_iff.mp hv
    obtain ⟨entry, hentry, hnode⟩ := hnodes key n hn
    exact .member hmem (.member hentry (hasNumber_of_nodeJson hnode hk))
  all_goals simp [clientFacts] at hk

/-- **The value of a payload has distinct names in each object.** -/
theorem distinct_toJson (hr : request.Distinct) (hm : m.Distinct)
    (h : build policy request m skipDev = .ok p) : p.toJson.Distinct := by
  obtain ⟨es, hes, hnames, hnodes⟩ := nodes_of_build h
  obtain ⟨ms, hms, hmem⟩ := mem_of_member? hes
  have hentries : Json.Distinct (.obj es) := by
    have hsorted := hr.sorted
    rw [hms] at hsorted
    cases hsorted with
    | obj _ hmembers => exact hmembers _ hmem
  have hrequires : (p.requires.map (·.1)).Nodup := by
    obtain ⟨_, _, -, -, rfl⟩ := build_ok_iff.mp h
    exact Pairs.nodup_sort.mpr (nodup_registered hm skipDev)
  rw [toJson]
  refine .obj ?_ fun q hq => ?_
  · cases p.name <;> cases p.version <;> simp
  simp only [List.mem_append, List.mem_cons, List.not_mem_nil, or_false, Option.mem_toList,
    Option.map_eq_some_iff] at hq
  rcases hq with (⟨s, -, rfl⟩ | ⟨s, -, rfl⟩) | rfl | rfl | rfl | rfl | rfl
  · exact .str _
  · exact .str _
  · refine .obj ?_ fun r hr => ?_
    · rw [List.map_map]
      exact hrequires
    · obtain ⟨range, -, rfl⟩ := List.mem_map.mp hr
      exact .str _
  · cases hentries with
    | obj hkeys hes =>
    refine .obj ?_ fun r hr => ?_
    · rw [names_nodesJson]
      exact hkeys.sublist hnames
    · obtain ⟨n, hn, hvalue⟩ := mem_nodesJson_iff.mp hr
      obtain ⟨entry, hentry, hnode⟩ := hnodes r.1 n hn
      rw [hvalue]
      exact distinct_nodeJson (hes _ hentry) hnode
  · exact .arr (List.forall_mem_nil _)
  · exact .arr (List.forall_mem_nil _)
  · refine .obj (by simp [clientFacts]) ?_
    simp [clientFacts, Json.Distinct.str, Json.Distinct.bool]

theorem exact_toJson (hr : request.Exact) (hm : m.Distinct)
    (h : build policy request m skipDev = .ok p) : p.toJson.Exact := by
  obtain ⟨hdistinct, hnumbers⟩ := Json.exact_iff.mp hr
  exact Json.exact_iff.mpr
    ⟨distinct_toJson hdistinct hm h, fun k hk => hnumbers k (hasNumber_of_toJson h hk)⟩

/-! ## The text -/

/-- Reading the text of a payload gives its value, sorted. -/
theorem parse_text (hr : request.Exact) (hm : m.Distinct)
    (h : build policy request m skipDev = .ok p) : Json.parse p.text = .ok p.toJson.sorted :=
  Json.parse_compact (exact_toJson hr hm h)

/-- **The text that is posted carries the payload.** Where the request has no numbers but integers that
    can be written, the text consists of visible ASCII characters and spaces, and reading it gives a value
    that is equal to the payload's. So two payloads have one text exactly if their values are equal. -/
theorem text_carries (hr : request.Exact) (hm : m.Distinct)
    (h : build policy request m skipDev = .ok p) :
    (∀ c ∈ p.text.toList, 0x20 ≤ c.toNat ∧ c.toNat < 0x7f) ∧
    (∃ v, Json.parse p.text = .ok v ∧ v.equal p.toJson = true) ∧
    ∀ {policy' : DevPolicy} {request' : Json} {m' : Manifest} {skipDev' : Bool} {q : Payload},
      request'.Exact → m'.Distinct → build policy' request' m' skipDev' = .ok q →
        (p.text = q.text ↔ p.toJson.equal q.toJson = true) := by
  have hexact := exact_toJson hr hm h
  have hdistinct := (Json.exact_iff.mp hexact).1
  refine ⟨fun c hc => ?_, ⟨_, parse_text hr hm h, Json.equal_sorted hexact⟩, fun hr' hm' h' => ?_⟩
  · rw [text, Json.compact, String.toList_ofList] at hc
    have hplain := Json.plain_compact hexact c hc
    simp only [Json.isPlain, Bool.and_eq_true, decide_eq_true_eq] at hplain
    omega
  · constructor
    · intro htext
      have hparse := parse_text hr hm h
      rw [htext, parse_text hr' hm' h'] at hparse
      exact Json.equal_of_sorted_eq hdistinct (Except.ok.inj hparse).symm
    · exact Json.compact_eq_of_equal hdistinct

/-- Ranges that are no texts, of which one has a number. -/
def spelledRanges (k : Int) : List (String × Json) :=
  [("a", .arr [.num (.int k), .null, .str "😀"]), ("é", .bool true)]

/-- A request with a package whose name needs every kind of escape. -/
def spelledRequest (k : Int) : Json :=
  .obj [("dependencies", .obj [("\"é\\\n\x7f𝄞",
    .obj [("requires", .obj (spelledRanges k)), ("version", .str "1.0.0")])])]

/-- The payload of such a request. -/
def spelledPayload (k : Int) : Payload :=
  ⟨none, none, [], [("\"é\\\n\x7f𝄞", .mk "1.0.0" none (some (spelledRanges k)) none none)], false⟩

theorem exact_spelledRequest {k : Int} (hk : Numeral.writable k.natAbs = true) :
    (spelledRequest k).Exact := by
  have hranges : Json.Exact (.obj (spelledRanges k)) := by
    refine .obj (by simp [spelledRanges]) ?_
    have hitems : Json.Exact (.arr [.num (.int k), .null, .str "😀"]) := by
      refine .arr ?_
      simp [Json.Exact.int hk, Json.Exact.null, Json.Exact.str]
    simp [spelledRanges, hitems, Json.Exact.bool]
  have hentry : Json.Exact (.obj [("requires", .obj (spelledRanges k)), ("version", .str "1.0.0")]) := by
    refine .obj (by simp) ?_
    simp [hranges, Json.Exact.str]
  have hentries : Json.Exact (.obj [("\"é\\\n\x7f𝄞",
      .obj [("requires", .obj (spelledRanges k)), ("version", .str "1.0.0")])]) := by
    refine .obj (by simp) ?_
    simpa using hentry
  refine .obj (by simp) ?_
  simpa using hentries

theorem build_spelledRequest (k : Int) :
    build .flagged (spelledRequest k) .empty false = .ok (spelledPayload k) := by
  have hsorted : (spelledRequest k).sorted = spelledRequest k := by
    simp only [spelledRequest, spelledRanges, Json.sorted, Json.sortedMembers, Json.sortedItems, Pairs.sort]
    repeat rw [List.mergeSort_of_pairwise (by simp +decide)]
  refine build_ok_iff.mpr ⟨_, _, by rw [hsorted]; rfl, rfl, ?_⟩
  simp [spelledPayload, registryRanges, declaredRanges, Manifest.empty, filled, Pairs.sort, Pairs.get?]

/-- Payloads of two such requests read back, and their texts differ as the numbers do. -/
theorem text_carries_spelled :
    build .flagged (spelledRequest (-7)) .empty false = .ok (spelledPayload (-7)) ∧
      (∀ c ∈ (spelledPayload (-7)).text.toList, 0x20 ≤ c.toNat ∧ c.toNat < 0x7f) ∧
      (∃ v, Json.parse (spelledPayload (-7)).text = .ok v ∧
        v.equal (spelledPayload (-7)).toJson = true) ∧
      (spelledPayload (-7)).text ≠ (spelledPayload 8).text := by
  have hempty : Manifest.Distinct .empty := ⟨List.nodup_nil, List.nodup_nil⟩
  obtain ⟨hplain, hread, hsame⟩ := text_carries (exact_spelledRequest (k := -7) rfl) hempty
    (build_spelledRequest (-7))
  refine ⟨build_spelledRequest (-7), hplain, hread, fun htext => ?_⟩
  have hequal := (hsame (exact_spelledRequest (k := 8) rfl) hempty (build_spelledRequest 8)).mp htext
  exact absurd hequal (by decide +kernel)

end Payload

end LockAudit

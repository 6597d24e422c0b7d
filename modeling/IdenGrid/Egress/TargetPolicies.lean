import IdenGrid.Edge.Targets
import IdenGrid.Lib.Ipv4

/-! # The target policies of the control plane and the Edge

Both refuse other ports than 80 and 443, local names, names without an IDNA encoding, names without
an answer, and private or multicast addresses. Beyond that the control plane refuses reserved
addresses; the Edge refuses names that are no hostname, families that do not fit the address, and all
that is not global; and the Edge writes the address in its compressed form.

`agree_iff`: exactly where none of this makes a difference, both accept or both refuse, with the same
host and address. -/

namespace IdenGrid.Egress.TargetPolicies

open IdenGrid.Lib.Unicode IdenGrid.Control.Targets IdenGrid.Edge.Targets

/-- Both accept or both refuse, and they select the same host and address. -/
def Agree (L : Library) (answers : Option (List (ℤ × List ℕ))) (host : List ℕ) (port : ℤ) : Prop :=
  ((∃ target, Control.Targets.resolve L.names answers host port = .ok target) ↔
    ∃ target, Edge.Targets.resolve L answers host port = .ok target) ∧
  ∀ central edge, Control.Targets.resolve L.names answers host port = .ok central →
    Edge.Targets.resolve L answers host port = .ok edge →
      central.host = edge.host ∧ central.address = edge.address

section Conditions

variable (L : Library)

/-- What both check before they look at the answers. -/
structure Reaches (answers : Option (List (ℤ × List ℕ))) (host : List ℕ) (port : ℤ)
    (asciiHost : List ℕ) (first : ℤ × List ℕ) (rest : List (ℤ × List ℕ)) : Prop where
  port : port = 80 ∨ port = 443
  notLocal : ¬ (L.lower (stripDots host) = [] ∨ L.lower (stripDots host) = text "localhost" ∨
    (text ".localhost").isSuffixOf (L.lower (stripDots host)) = true)
  idna : L.idna (L.lower (stripDots host)) = some asciiHost
  answers : answers = some (first :: rest)

/-- An answer that neither refuses for its family alone, or as private or multicast. -/
def Plain (answer : ℤ × List ℕ) : Prop :=
  ∃ value, L.ipAddress answer.2 = some value ∧ answer.1 ∈ families ∧ value.isPrivate = false ∧
    value.isMulticast = false

def Reserved (answer : ℤ × List ℕ) : Prop :=
  ∃ value, L.ipAddress answer.2 = some value ∧ value.isReserved = true

/-- The family is that of the address, and the address is global. -/
def Fitting (answer : ℤ × List ℕ) : Prop :=
  ∃ value, L.ipAddress answer.2 = some value ∧ answer.1 = value.family ∧ value.isGlobal = true

def Compressed (answer : ℤ × List ℕ) : Prop :=
  ∃ value, L.ipAddress answer.2 = some value ∧ value.compressed = answer.2

/-- Where both look at plain answers: with a reserved address the Edge refuses too, without one it
accepts too, and has the first address as it is written. -/
def Aligned (answers : Option (List (ℤ × List ℕ))) (host : List ℕ) (port : ℤ) : Prop :=
  ∀ asciiHost first rest, Reaches L answers host port asciiHost first rest →
    (∀ answer ∈ first :: rest, Plain L answer) →
      ((∃ answer ∈ first :: rest, Reserved L answer) →
        ¬ (nameOk L asciiHost = true ∧ ∀ answer ∈ first :: rest, Fitting L answer)) ∧
      ((∀ answer ∈ first :: rest, ¬ Reserved L answer) →
        nameOk L asciiHost = true ∧ (∀ answer ∈ first :: rest, Fitting L answer) ∧
          Compressed L first)

end Conditions

variable {L : Library} {answers : Option (List (ℤ × List ℕ))} {host : List ℕ} {port : ℤ}

/-! ## What each accepts -/

theorem centralPublic_iff {value : Address} : value.centralPublic = true ↔
    value.isPrivate = false ∧ value.isMulticast = false ∧ value.isReserved = false := by
  have h1 := value.private_of_loopback
  have h2 := value.private_of_linkLocal
  have h3 := value.private_of_unspecified
  simp only [Address.centralPublic, Bool.not_eq_true', Bool.or_eq_false_iff]
  constructor
  · rintro ⟨⟨⟨⟨⟨hp, -⟩, -⟩, hm⟩, hr⟩, -⟩
    exact ⟨hp, hm, hr⟩
  · rintro ⟨hp, hm, hr⟩
    have hloopback : value.isLoopback = false := Bool.eq_false_iff.mpr fun h => by simp [h1 h] at hp
    have hlinkLocal : value.isLinkLocal = false := Bool.eq_false_iff.mpr fun h => by
      simp [h2 h] at hp
    have hunspecified : value.isUnspecified = false := Bool.eq_false_iff.mpr fun h => by
      simp [h3 h] at hp
    exact ⟨⟨⟨⟨⟨hp, hloopback⟩, hlinkLocal⟩, hm⟩, hr⟩, hunspecified⟩

theorem family_mem (value : Address) : value.family ∈ families := by
  unfold Address.family
  split_ifs
  · decide
  · decide

/-- The answers that the control plane accepts. -/
theorem central_vetted : ∀ (resolved : List (ℤ × List ℕ)) {answers : List (ℤ × List ℕ)},
    (∀ a ∈ answers, a.1 ∈ families ∧ L.names.isPublic a.2 = some true) →
      ∃ r, Control.Targets.vetted L.names resolved answers = .ok r ∧
        r.head? = (resolved ++ answers).head?
  | resolved, [], _ => ⟨resolved, rfl, by simp⟩
  | resolved, a :: as, h => by
    obtain ⟨hfamily, hpublic⟩ := h a List.mem_cons_self
    obtain ⟨r, hr, hhead⟩ := central_vetted
      (if a ∈ resolved then resolved else resolved ++ [a])
      fun b hb => h b (List.mem_cons_of_mem a hb)
    refine ⟨r, ?_, ?_⟩
    · rw [Control.Targets.vetted, if_neg (not_not.mpr hfamily)]
      simp only [hpublic]
      exact hr
    · rw [hhead]
      split_ifs with hmem
      · obtain ⟨b, t, rfl⟩ := List.exists_cons_of_ne_nil (List.ne_nil_of_mem hmem)
        rfl
      · simp

theorem central_refuses : ∀ {resolved answers r : List (ℤ × List ℕ)},
    Control.Targets.vetted L.names resolved answers = .ok r →
      ∀ a ∈ answers, a.1 ∈ families ∧ L.names.isPublic a.2 = some true
  | _, [], _, _ => by simp
  | resolved, a :: as, r, h => by
    rw [Control.Targets.vetted] at h
    by_cases hfamily : a.1 ∈ families
    · rw [if_neg (not_not.mpr hfamily)] at h
      rcases hpublic : L.names.isPublic a.2 with _ | _ | _
      · simp [hpublic] at h
      · simp [hpublic] at h
      · simp only [hpublic] at h
        exact List.forall_mem_cons.mpr ⟨⟨hfamily, hpublic⟩, central_refuses h⟩
    · rw [if_pos hfamily] at h
      simp at h

theorem central_answer {a : ℤ × List ℕ} :
    (a.1 ∈ families ∧ L.names.isPublic a.2 = some true) ↔ Plain L a ∧ ¬ Reserved L a := by
  constructor
  · rintro ⟨hfamily, hpublic⟩
    obtain ⟨value, hvalue, hcentral⟩ := Option.map_eq_some_iff.mp hpublic
    obtain ⟨hprivate, hmulticast, hreserved⟩ := centralPublic_iff.mp hcentral
    refine ⟨⟨value, hvalue, hfamily, hprivate, hmulticast⟩, ?_⟩
    rintro ⟨value', hvalue', hr⟩
    obtain rfl := Option.some.inj (hvalue.symm.trans hvalue')
    simp [hr] at hreserved
  · rintro ⟨⟨value, hvalue, hfamily, hprivate, hmulticast⟩, hreserved⟩
    refine ⟨hfamily, Option.map_eq_some_iff.mpr ⟨value, hvalue, centralPublic_iff.mpr
      ⟨hprivate, hmulticast, Bool.eq_false_iff.mpr fun hr => hreserved ⟨value, hvalue, hr⟩⟩⟩⟩

/-- An answer as the Edge takes it over. -/
def pairOf (L : Library) (a : ℤ × List ℕ) : ℤ × List ℕ :=
  (a.1, ((L.ipAddress a.2).map Address.compressed).getD [])

theorem edge_vetted : ∀ (resolved : List (ℤ × List ℕ)) {answers : List (ℤ × List ℕ)},
    (∀ a ∈ answers, Plain L a ∧ Fitting L a) →
      ∃ r, Edge.Targets.vetted L resolved answers = .ok r ∧
        r.head? = (resolved ++ answers.map (pairOf L)).head?
  | resolved, [], _ => ⟨resolved, rfl, by simp⟩
  | resolved, (family, address) :: as, h => by
    obtain ⟨⟨value, hvalue, -, -, hmulticast⟩, value', hvalue', hfamily, hglobal⟩ :=
      h (family, address) List.mem_cons_self
    obtain rfl := Option.some.inj (hvalue.symm.trans hvalue')
    obtain ⟨r, hr, hhead⟩ := edge_vetted
      (if (family, value.compressed) ∈ resolved then resolved
        else resolved ++ [(family, value.compressed)])
      fun b hb => h b (List.mem_cons_of_mem (family, address) hb)
    have hok : ¬ (family ≠ value.family ∨ value.isPublic = false) := by
      simp [Address.isPublic, hglobal, hmulticast, show family = value.family from hfamily]
    have hpair : pairOf L (family, address) = (family, value.compressed) := by
      simp only [pairOf]
      rw [show L.ipAddress address = some value from hvalue]
      rfl
    refine ⟨r, ?_, ?_⟩
    · rw [Edge.Targets.vetted, show L.ipAddress address = some value from hvalue]
      simp only [if_neg hok]
      exact hr
    · rw [hhead, List.map_cons, hpair]
      split_ifs with hmem
      · obtain ⟨b, t, rfl⟩ := List.exists_cons_of_ne_nil (List.ne_nil_of_mem hmem)
        rfl
      · simp

theorem edge_refuses : ∀ {resolved answers r : List (ℤ × List ℕ)},
    Edge.Targets.vetted L resolved answers = .ok r → ∀ a ∈ answers, Plain L a ∧ Fitting L a
  | _, [], _, _ => by simp
  | resolved, (family, address) :: as, r, h => by
    rw [Edge.Targets.vetted] at h
    rcases hvalue : L.ipAddress address with _ | value
    · simp [hvalue] at h
    simp only [hvalue] at h
    by_cases hno : family ≠ value.family ∨ value.isPublic = false
    · rw [if_pos hno] at h
      simp at h
    rw [if_neg hno] at h
    have hgood : family = value.family ∧ value.isGlobal = true ∧ value.isMulticast = false := by
      simpa [Address.isPublic] using hno
    obtain ⟨hfamily, hglobal, hmulticast⟩ := hgood
    have hmem : family ∈ families := hfamily ▸ family_mem value
    exact List.forall_mem_cons.mpr ⟨⟨⟨value, hvalue, hmem, value.not_private_of_global hglobal,
      hmulticast⟩, value, hvalue, hfamily, hglobal⟩, edge_refuses h⟩

/-- What both have checked when they accept. -/
theorem Reaches.unique {a a' : List ℕ} {first first' : ℤ × List ℕ} {rest rest' : List (ℤ × List ℕ)}
    (h : Reaches L answers host port a first rest)
    (h' : Reaches L answers host port a' first' rest') : a = a' ∧ first = first' ∧ rest = rest' := by
  have hanswers := Option.some.inj (h.answers.symm.trans h'.answers)
  exact ⟨Option.some.inj (h.idna.symm.trans h'.idna), List.head_eq_of_cons_eq hanswers,
    List.tail_eq_of_cons_eq hanswers⟩

/-- **What the control plane accepts.** -/
theorem central_iff {target : ResolvedTarget} :
    Control.Targets.resolve L.names answers host port = .ok target ↔
      ∃ asciiHost first rest, Reaches L answers host port asciiHost first rest ∧
        (∀ a ∈ first :: rest, Plain L a ∧ ¬ Reserved L a) ∧
        target = ⟨asciiHost, port, first.2, first.1⟩ := by
  unfold Control.Targets.resolve
  constructor
  · intro h
    by_cases hport : port ∈ allowedPorts
    swap
    · simp [hport] at h
    rw [if_neg (not_not.mpr hport)] at h
    dsimp only at h
    by_cases hlocal : L.names.lower (stripDots host) = [] ∨
        L.names.lower (stripDots host) = text "localhost" ∨
        (text ".localhost").isSuffixOf (L.names.lower (stripDots host)) = true
    · rw [if_pos hlocal] at h
      simp at h
    rw [if_neg hlocal] at h
    rcases hidna : L.names.idna (L.names.lower (stripDots host)) with _ | a
    · simp [hidna] at h
    simp only [hidna] at h
    rcases answers with _ | _ | ⟨first, rest⟩
    · simp at h
    · simp at h
    have hreach : Reaches L (some (first :: rest)) host port a first rest :=
      ⟨by simpa [allowedPorts] using hport, hlocal, hidna, rfl⟩
    rcases hv : Control.Targets.vetted L.names [] (first :: rest) with e | r
    · simp [hv] at h
    have hall := central_refuses hv
    obtain ⟨r', hr', hhead⟩ := central_vetted [] hall
    obtain rfl := Except.ok.inj (hv.symm.trans hr')
    rcases r with _ | ⟨⟨family, address⟩, r⟩
    · simp at hhead
    · obtain rfl : (family, address) = first := Option.some.inj hhead
      simp only [hv] at h
      exact ⟨a, _, rest, hreach, fun x hx => central_answer.mp (hall x hx), (Except.ok.inj h).symm⟩
  · rintro ⟨a, first, rest, hreach, hall, rfl⟩
    have hport : port ∈ allowedPorts := by simpa [allowedPorts] using hreach.port
    have hidna : L.names.idna (L.names.lower (stripDots host)) = some a := hreach.idna
    obtain ⟨r, hr, hhead⟩ := central_vetted [] fun x hx => central_answer.mpr (hall x hx)
    obtain ⟨r', rfl⟩ : ∃ r', r = first :: r' := by
      rcases r with _ | ⟨x, r'⟩
      · simp at hhead
      · exact ⟨r', by rw [Option.some.inj hhead]⟩
    have hlocal : ¬ (L.names.lower (stripDots host) = [] ∨
        L.names.lower (stripDots host) = text "localhost" ∨
        (text ".localhost").isSuffixOf (L.names.lower (stripDots host)) = true) := hreach.notLocal
    rw [if_neg (not_not.mpr hport)]
    dsimp only
    rw [if_neg hlocal]
    simp only [hidna, hreach.answers, hr]

/-- **What the Edge accepts.** -/
theorem edge_iff {target : ResolvedTarget} :
    Edge.Targets.resolve L answers host port = .ok target ↔
      ∃ asciiHost first rest, Reaches L answers host port asciiHost first rest ∧
        nameOk L asciiHost = true ∧ (∀ a ∈ first :: rest, Plain L a ∧ Fitting L a) ∧
        target = ⟨asciiHost, port, (pairOf L first).2, first.1⟩ := by
  unfold Edge.Targets.resolve
  constructor
  · intro h
    by_cases hport : port ≠ 80 ∧ port ≠ 443
    · rw [if_pos hport] at h
      simp at h
    rw [if_neg hport] at h
    dsimp only at h
    by_cases hlocal : L.lower (stripDots host) = [] ∨ L.lower (stripDots host) = text "localhost" ∨
        (text ".localhost").isSuffixOf (L.lower (stripDots host)) = true
    · rw [if_pos hlocal] at h
      simp at h
    rw [if_neg hlocal] at h
    rcases hidna : L.idna (L.lower (stripDots host)) with _ | a
    · simp [hidna] at h
    simp only [hidna] at h
    by_cases hname : nameOk L a = false
    · simp [hname] at h
    rw [if_neg hname] at h
    rcases answers with _ | _ | ⟨first, rest⟩
    · simp at h
    · simp at h
    have hreach : Reaches L (some (first :: rest)) host port a first rest :=
      ⟨by omega, hlocal, hidna, rfl⟩
    rcases hv : Edge.Targets.vetted L [] (first :: rest) with e | r
    · simp [hv] at h
    have hall := edge_refuses hv
    obtain ⟨r', hr', hhead⟩ := edge_vetted [] hall
    obtain rfl := Except.ok.inj (hv.symm.trans hr')
    rcases r with _ | ⟨⟨family, address⟩, r⟩
    · simp at hhead
    · have hpair : (family, address) = pairOf L first := Option.some.inj hhead
      simp only [hv] at h
      obtain rfl := Except.ok.inj h
      refine ⟨a, first, rest, hreach, (Bool.not_eq_false _).mp hname, hall, ?_⟩
      rw [← hpair, show first.1 = family from (congrArg Prod.fst hpair).symm]
  · rintro ⟨a, first, rest, hreach, hname, hall, rfl⟩
    have hport := hreach.port
    obtain ⟨r, hr, hhead⟩ := edge_vetted [] hall
    obtain ⟨r', rfl⟩ : ∃ r', r = pairOf L first :: r' := by
      rcases r with _ | ⟨x, r'⟩
      · simp at hhead
      · exact ⟨r', by rw [Option.some.inj hhead]⟩
    rw [if_neg (by omega)]
    dsimp only
    rw [if_neg hreach.notLocal]
    simp only [hreach.idna, hname, Bool.true_eq_false, if_false, hreach.answers, hr]
    rfl

/-! ## Where they agree -/

section Reached

variable {a : List ℕ} {first : ℤ × List ℕ} {rest : List (ℤ × List ℕ)}

/-- The control plane's decision on plain answers. -/
theorem central_reached (hreach : Reaches L answers host port a first rest)
    (hplain : ∀ x ∈ first :: rest, Plain L x) :
    (∃ target, Control.Targets.resolve L.names answers host port = .ok target) ↔
      ∀ x ∈ first :: rest, ¬ Reserved L x := by
  constructor
  · rintro ⟨target, h⟩
    obtain ⟨a', first', rest', hreach', hall, -⟩ := central_iff.mp h
    obtain ⟨rfl, rfl, rfl⟩ := hreach.unique hreach'
    exact fun x hx => (hall x hx).2
  · intro h
    exact ⟨_, central_iff.mpr ⟨a, first, rest, hreach, fun x hx => ⟨hplain x hx, h x hx⟩, rfl⟩⟩

/-- The Edge's decision on them. -/
theorem edge_reached (hreach : Reaches L answers host port a first rest)
    (hplain : ∀ x ∈ first :: rest, Plain L x) :
    (∃ target, Edge.Targets.resolve L answers host port = .ok target) ↔
      nameOk L a = true ∧ ∀ x ∈ first :: rest, Fitting L x := by
  constructor
  · rintro ⟨target, h⟩
    obtain ⟨a', first', rest', hreach', hname, hall, -⟩ := edge_iff.mp h
    obtain ⟨rfl, rfl, rfl⟩ := hreach.unique hreach'
    exact ⟨hname, fun x hx => (hall x hx).2⟩
  · rintro ⟨hname, h⟩
    exact ⟨_, edge_iff.mpr ⟨a, first, rest, hreach, hname, fun x hx => ⟨hplain x hx, h x hx⟩, rfl⟩⟩

end Reached

/-- An address is compressed exactly if the Edge takes it over as it is. -/
theorem compressed_iff {x : ℤ × List ℕ} (hx : Plain L x) : Compressed L x ↔ x.2 = (pairOf L x).2 := by
  obtain ⟨value, hvalue, -⟩ := hx
  have hpair : (pairOf L x).2 = value.compressed := by
    simp only [pairOf]
    rw [hvalue]
    rfl
  rw [hpair]
  constructor
  · rintro ⟨value', hvalue', h⟩
    obtain rfl := Option.some.inj (hvalue.symm.trans hvalue')
    exact h.symm
  · exact fun h => ⟨value, hvalue, h.symm⟩

/-- **The policies agree exactly where their differences make none.** -/
theorem agree_iff (L : Library) (answers : Option (List (ℤ × List ℕ))) (host : List ℕ) (port : ℤ) :
    Agree L answers host port ↔ Aligned L answers host port := by
  constructor
  · rintro ⟨hiff, hsame⟩ a first rest hreach hplain
    rw [central_reached hreach hplain, edge_reached hreach hplain] at hiff
    refine ⟨?_, fun hnone => ?_⟩
    · rintro ⟨x, hx, hreserved⟩ hedge
      exact hiff.mpr hedge x hx hreserved
    · obtain ⟨hname, hfitting⟩ := hiff.mp hnone
      refine ⟨hname, hfitting, (compressed_iff (hplain first List.mem_cons_self)).mpr ?_⟩
      have hcentral := central_iff.mpr ⟨a, first, rest, hreach,
        fun x hx => ⟨hplain x hx, hnone x hx⟩, rfl⟩
      have hedge := edge_iff.mpr ⟨a, first, rest, hreach, hname,
        fun x hx => ⟨hplain x hx, hfitting x hx⟩, rfl⟩
      exact (hsame _ _ hcentral hedge).2
  · intro h
    refine ⟨⟨?_, ?_⟩, ?_⟩
    · rintro ⟨target, hcentral⟩
      obtain ⟨a, first, rest, hreach, hall, -⟩ := central_iff.mp hcentral
      have hplain := fun x hx => (hall x hx).1
      obtain ⟨hname, hfitting, -⟩ := (h a first rest hreach hplain).2 fun x hx => (hall x hx).2
      exact (edge_reached hreach hplain).mpr ⟨hname, hfitting⟩
    · rintro ⟨target, hedge⟩
      obtain ⟨a, first, rest, hreach, hname, hall, -⟩ := edge_iff.mp hedge
      have hplain := fun x hx => (hall x hx).1
      refine (central_reached hreach hplain).mpr fun x hx hreserved => ?_
      exact (h a first rest hreach hplain).1 ⟨x, hx, hreserved⟩ ⟨hname, fun y hy => (hall y hy).2⟩
    · intro central edge hcentral hedge
      obtain ⟨a, first, rest, hreach, hall, rfl⟩ := central_iff.mp hcentral
      obtain ⟨a', first', rest', hreach', -, -, rfl⟩ := edge_iff.mp hedge
      obtain ⟨rfl, rfl, rfl⟩ := hreach.unique hreach'
      have hplain := fun x hx => (hall x hx).1
      obtain ⟨-, -, hcompressed⟩ := (h a first rest hreach hplain).2 fun x hx => (hall x hx).2
      exact ⟨rfl, (compressed_iff (hplain first List.mem_cons_self)).mp hcompressed⟩

/-! ## A shared address -/

/-- An IPv4 address with the properties that `ipaddress` gives it. -/
def ipv4 (t : List ℕ) (n : ℕ) : Address where
  version := 4
  compressed := t
  isPrivate := Lib.Ipv4.isPrivate n
  isLoopback := Lib.Ipv4.inNetwork n ((127, 0, 0, 0), 8)
  isLinkLocal := Lib.Ipv4.inNetwork n ((169, 254, 0, 0), 16)
  isMulticast := Lib.Ipv4.inNetwork n ((224, 0, 0, 0), 4)
  isReserved := Lib.Ipv4.inNetwork n ((240, 0, 0, 0), 4)
  isUnspecified := n == 0
  isGlobal := Lib.Ipv4.isGlobal n
  private_of_loopback h := by
    simp only [Lib.Ipv4.inNetwork, beq_iff_eq] at h
    simp [Lib.Ipv4.isPrivate, Lib.Ipv4.privateNetworks, Lib.Ipv4.privateExceptions,
      Lib.Ipv4.inNetwork]
    omega
  private_of_linkLocal h := by
    simp only [Lib.Ipv4.inNetwork, beq_iff_eq] at h
    simp [Lib.Ipv4.isPrivate, Lib.Ipv4.privateNetworks, Lib.Ipv4.privateExceptions,
      Lib.Ipv4.inNetwork]
    omega
  private_of_unspecified h := by
    obtain rfl := beq_iff_eq.mp h
    decide
  not_private_of_global h := by
    simpa [Lib.Ipv4.isGlobal] using (Bool.and_eq_true_iff.mp h).2

/-- A library that knows ASCII names and IPv4 addresses. -/
def ipv4Library : Library where
  lower := List.map fun c => if 65 ≤ c ∧ c ≤ 90 then c + 32 else c
  idna h := if ∀ c ∈ h, c < 0x80 then some h else none
  idna_ascii _ _ ha := Control.Targets.ascii_of_idna ha
  ipAddress t := (Lib.Ipv4.parse t).map (ipv4 t)

/-- An address of the shared address space is neither private nor global. -/
theorem shared_disagree :
    ¬ Agree ipv4Library (some [(2, text "100.64.0.1")]) (text "example.com") 443 := by
  rintro ⟨hiff, -⟩
  have hcentral : Control.Targets.resolve ipv4Library.names (some [(2, text "100.64.0.1")])
      (text "example.com") 443 = .ok ⟨text "example.com", 443, text "100.64.0.1", 2⟩ := by rfl
  have hedge : Edge.Targets.resolve ipv4Library (some [(2, text "100.64.0.1")])
      (text "example.com") 443 = .error "target resolves to a blocked network" := by rfl
  obtain ⟨target, htarget⟩ := hiff.mp ⟨_, hcentral⟩
  rw [hedge] at htarget
  simp at htarget

end IdenGrid.Egress.TargetPolicies

import Hopclaw.Tools.Ssrf

/-! # What the network guard lets through

A host that `checkHostSSRF` accepts should lead neither to a denied name nor to an address inside
the own network. Two texts slip past the comparison of names and addresses: a name written with
the dot of the root differs from the same name without it, and the unspecified address `::` is in
no network of the table. A third group of hosts is accepted without its addresses being looked at.
The main result says that there is nothing else. -/

namespace Hopclaw.Tools

open GoStrings GoNet

/-! ## What an accepted host should satisfy -/

/-- A name as DNS compares it: without regard to case and to the dot of the root. -/
def dnsName (s : String) : String :=
  trimSuffix (toLower s) "."

/-- The domain that an entry of a host list stands for. -/
def entryDomain (entry : String) : String :=
  trimSuffix (trimPrefix entry ".") "."

/-- An entry denies the names below its domain and, written without a leading dot, the domain
    itself. -/
def Denies (entry host : String) : Prop :=
  entry ≠ "" ∧
    (hasPrefix entry "." = false ∧ dnsName host = entryDomain entry ∨
      hasSuffix (dnsName host) ("." ++ entryDomain entry) = true)

instance (entry host : String) : Decidable (Denies entry host) :=
  inferInstanceAs (Decidable (_ ∧ _))

/-- Addresses of networks that are not public: RFC 1918 and RFC 4193, and the networks `0/8`,
    `100.64/10` and `198.18/15`. -/
def IsPrivate (ip : IP) : Prop :=
  match to4 ip with
  | some x =>
    let a := x / 2 ^ 24
    let b := x / 2 ^ 16 % 2 ^ 8
    a = 10 ∨ a = 172 ∧ 16 ≤ b ∧ b ≤ 31 ∨ a = 192 ∧ b = 168 ∨ a = 0 ∨
      a = 100 ∧ 64 ≤ b ∧ b ≤ 127 ∨ a = 198 ∧ 18 ≤ b ∧ b ≤ 19
  | none => 0xfc ≤ ip.toNat / 2 ^ 120 ∧ ip.toNat / 2 ^ 120 ≤ 0xfd

def IsLinkLocal (ip : IP) : Prop :=
  match to4 ip with
  | some x => x / 2 ^ 24 = 169 ∧ x / 2 ^ 16 % 2 ^ 8 = 254
  | none => 0xfe80 ≤ ip.toNat / 2 ^ 112 ∧ ip.toNat / 2 ^ 112 ≤ 0xfebf

/-- `0.0.0.0` and `::`. -/
def IsUnspecified (ip : IP) : Prop :=
  ip = ofIPv4 0 ∨ ip = 0#128

/-- An address that a tool must not contact. -/
def IsInternal (ip : IP) : Prop :=
  IsPrivate ip ∨ IsLinkLocal ip ∨ IsUnspecified ip ∨ isLoopback ip = true

/-- The addresses of `198.18.0.0/15`. -/
def IsBenchmark (ip : IP) : Prop :=
  ∃ x, to4 ip = some x ∧ x / 2 ^ 24 = 198 ∧ 18 ≤ x / 2 ^ 16 % 2 ^ 8 ∧ x / 2 ^ 16 % 2 ^ 8 ≤ 19

/-- The address that a host is written as, in brackets or not, with a zone or not. -/
def literalIP (host : String) : Option IP :=
  (parseAddr (literalHost host)).map Addr.ip

/-- The addresses of a host: the one it is written as, or those of the DNS answer. -/
def addresses (lib : NetLib) (host : String) : List IP :=
  match literalIP host with
  | some ip => [ip]
  | none => (lib.lookupIP host).toOption.getD []

/-- The internal addresses that local access opens: loopback, and the benchmark network where the
    address comes from DNS. -/
def Opened (allowLocal resolved : Bool) (ip : IP) : Prop :=
  allowLocal = true ∧ (isLoopback ip = true ∨ resolved = true ∧ IsBenchmark ip)

structure Confined (lib : NetLib) (host : String) (constraints : NetConstraints) : Prop where
  name : ∀ entry ∈ constraints.denyHosts, ¬ Denies (toLower (trimSpace entry)) host
  addrs : ∀ ip ∈ addresses lib host, IsInternal ip →
    Opened constraints.permitsLocal (literalIP host).isNone ip

/-! ## Names -/

variable {entry : String}

theorem hostMatchesEntry_iff {lower : String} : hostMatchesEntry lower entry = true ↔ entry ≠ "" ∧
      (lower = entry ∨ hasPrefix entry "." = true ∧ hasSuffix lower entry = true ∨
        hasPrefix entry "." = false ∧ hasSuffix lower ("." ++ entry) = true) := by
  simp [hostMatchesEntry, or_assoc]

variable {host : String}

/-- Where the comparison of the texts as they are written misses, comparing them without the dot of
    the root decides whether the entry denies the host. -/
theorem denies_iff (hmiss : hostMatchesEntry (toLower host) entry = false) :
    Denies entry host ↔ hostMatchesEntry (dnsName host) (trimSuffix entry ".") = true := by
  rw [hostMatchesEntry_iff, Denies, entryDomain]
  by_cases hdot : hasPrefix entry "." = true
  · obtain ⟨domain, rfl⟩ := exists_of_hasPrefix hdot
    rw [trimPrefix_eq]
    by_cases hdomain : domain = ""
    · -- The entry is the root itself, and a host with its dot would have matched.
      subst hdomain
      have hhost : hasSuffix (toLower host) "." = false := by
        by_contra hend
        rw [Bool.not_eq_false] at hend
        rw [hostMatchesEntry_iff.mpr ⟨by simp, .inr (.inl ⟨hdot, hend⟩)⟩] at hmiss
        cases hmiss
      have hroot : trimSuffix ("." ++ "") "." = "" := by decide +kernel
      have hend : "." ++ trimSuffix "" "." = "." := by decide +kernel
      rw [dnsName, trimSuffix_of_not hhost, hroot, hend, hdot, hhost]
      simp
    · rw [trimSuffix_append (by decide) hdomain]
      have hdot' : hasPrefix ("." ++ trimSuffix domain ".") "." = true := by simp [hasPrefix]
      rw [hdot, hdot']
      constructor
      · rintro ⟨-, h | h⟩
        · cases h.1
        · exact ⟨by simp, .inr (.inl ⟨rfl, h⟩)⟩
      · rintro ⟨-, h | h | h⟩
        · exact ⟨by simp, .inr (hasSuffix_iff.mpr (h ▸ List.suffix_refl _))⟩
        · exact ⟨by simp, .inr h.2⟩
        · cases h.1
  · rw [Bool.not_eq_true] at hdot
    have hdot' : hasPrefix (trimSuffix entry ".") "." = false := by
      by_contra h
      rw [hasPrefix_of_trimSuffix (Bool.not_eq_false _ ▸ h)] at hdot
      cases hdot
    have hempty : trimSuffix entry "." = "" ↔ entry = "" := by
      constructor
      · intro h
        rcases eq_of_trimSuffix_eq_empty h with h | h
        · exact h
        · rw [h] at hdot
          exact absurd hdot (by decide +kernel)
      · rintro rfl
        decide +kernel
    rw [trimPrefix_of_not hdot, hdot, hdot']
    simp [hempty]

/-! ## Addresses -/

theorem defaultPrivateNetworks_eq :
    defaultPrivateNetworks =
      [⟨true, 0x0a000000, 8⟩, ⟨true, 0xac100000, 12⟩, ⟨true, 0xc0a80000, 16⟩,
        ⟨true, 0x7f000000, 8⟩, ⟨true, 0xa9fe0000, 16⟩, ⟨true, 0, 8⟩, ⟨true, 0x64400000, 10⟩,
        ⟨true, 0xc6120000, 15⟩, ⟨false, 1, 128⟩, ⟨false, 0xfc * 2 ^ 120, 7⟩,
        ⟨false, 0xfe80 * 2 ^ 112, 10⟩] := by
  decide +kernel

variable {ip : IP}

theorem isPrivateNetworkIP_v4 {x : ℕ} (h : to4 ip = some x) :
    isPrivateNetworkIP ip = true ↔ IsPrivate ip ∨ IsLinkLocal ip ∨ isLoopback ip = true := by
  -- The networks whose mask ends inside an octet or after the second one.
  have h172 : x / 2 ^ 20 = 2753 ↔ x / 2 ^ 24 = 172 ∧ 16 ≤ x / 2 ^ 16 % 2 ^ 8 ∧
      x / 2 ^ 16 % 2 ^ 8 ≤ 31 := by omega
  have h192 : x / 2 ^ 16 = 49320 ↔ x / 2 ^ 24 = 192 ∧ x / 2 ^ 16 % 2 ^ 8 = 168 := by omega
  have h169 : x / 2 ^ 16 = 43518 ↔ x / 2 ^ 24 = 169 ∧ x / 2 ^ 16 % 2 ^ 8 = 254 := by omega
  have h100 : x / 2 ^ 22 = 401 ↔ x / 2 ^ 24 = 100 ∧ 64 ≤ x / 2 ^ 16 % 2 ^ 8 ∧
      x / 2 ^ 16 % 2 ^ 8 ≤ 127 := by omega
  have h198 : x / 2 ^ 17 = 25353 ↔ x / 2 ^ 24 = 198 ∧ 18 ≤ x / 2 ^ 16 % 2 ^ 8 ∧
      x / 2 ^ 16 % 2 ^ 8 ≤ 19 := by omega
  have hcontains : isPrivateNetworkIP ip = true ↔ x / 2 ^ 24 = 10 ∨ x / 2 ^ 20 = 2753 ∨
      x / 2 ^ 16 = 49320 ∨ x / 2 ^ 24 = 127 ∨ x / 2 ^ 16 = 43518 ∨ x / 2 ^ 24 = 0 ∨
      x / 2 ^ 22 = 401 ∨ x / 2 ^ 17 = 25353 := by
    simp [isPrivateNetworkIP, defaultPrivateNetworks_eq, isIPInNetworks, IPNet.contains, h]
  rw [hcontains, h172, h192, h169, h100, h198]
  simp only [IsPrivate, IsLinkLocal, isLoopback, h, decide_eq_true_eq]
  exact iff_of_eq (by ac_rfl)

theorem isPrivateNetworkIP_v6 (h : to4 ip = none) :
    isPrivateNetworkIP ip = true ↔ IsPrivate ip ∨ IsLinkLocal ip ∨ isLoopback ip = true := by
  have hone : ip = 1#128 ↔ ip.toNat = 1 := by
    rw [← BitVec.toNat_inj]
    rfl
  simp only [isPrivateNetworkIP, defaultPrivateNetworks_eq, isIPInNetworks, IPNet.contains,
    IsPrivate, IsLinkLocal, isLoopback, h, hone, List.any_cons, Bool.or_eq_true]
  simp
  omega

theorem isPrivateNetworkIP_iff (ip : IP) :
    isPrivateNetworkIP ip = true ↔ IsPrivate ip ∨ IsLinkLocal ip ∨ isLoopback ip = true := by
  cases h : to4 ip with
  | some x => exact isPrivateNetworkIP_v4 h
  | none => exact isPrivateNetworkIP_v6 h

/-- The table has every internal address but `::`. -/
theorem isInternal_iff (ip : IP) : IsInternal ip ↔ isPrivateNetworkIP ip = true ∨ ip = 0#128 := by
  have hzero : isPrivateNetworkIP (ofIPv4 0) = true := by decide +kernel
  rw [isPrivateNetworkIP_iff] at hzero ⊢
  constructor
  · rintro (h | h | (rfl | h) | h)
    · exact .inl (.inl h)
    · exact .inl (.inr (.inl h))
    · exact .inl hzero
    · exact .inr h
    · exact .inl (.inr (.inr h))
  · rintro ((h | h | h) | h)
    · exact .inl h
    · exact .inr (.inl h)
    · exact .inr (.inr (.inr h))
    · exact .inr (.inr (.inl (.inr h)))

theorem isBenchmarkTestingIP_iff (ip : IP) : isBenchmarkTestingIP ip = true ↔ IsBenchmark ip := by
  have hnet : parseCIDR "198.18.0.0/15" = some ⟨true, 0xc6120000, 15⟩ := by decide +kernel
  rw [isBenchmarkTestingIP, hnet, IsBenchmark]
  cases hx : to4 ip with
  | none => simp [IPNet.contains, hx]
  | some x =>
    simp only [IPNet.contains, hx]
    simp
    omega

/-! ## The checks of addresses -/

theorem refuse_ne_ok (text : String) : refuse text ≠ .ok () := by
  simp [refuse]

theorem localhostRefused_ne_ok : localhostRefused ≠ .ok () :=
  refuse_ne_ok _

theorem checkLiteral_eq_ok_iff {allowLocal : Bool} : checkLiteral allowLocal host ip = .ok () ↔
      (isPrivateNetworkIP ip = true → Opened allowLocal false ip) := by
  have hloop : isLoopback ip = true → isPrivateNetworkIP ip = true := by
    intro h
    exact (isPrivateNetworkIP_iff ip).mpr (.inr (.inr h))
  cases hl : isLoopback ip <;> cases hp : isPrivateNetworkIP ip <;> cases allowLocal <;>
    simp_all [checkLiteral, Opened, refuse_ne_ok, localhostRefused_ne_ok]

/-- The loop over the answer keeps what it saw, so its verdict is about every address of it. -/
theorem checkResolved_eq_ok_iff {lib : NetLib} {allowLocal : Bool} {ips : List IP}
    {sawLoopback : Bool} : checkResolved lib allowLocal host sawLoopback ips = .ok () ↔
      (sawLoopback = true → allowLocal = true) ∧
        ∀ ip ∈ ips, isPrivateNetworkIP ip = true → Opened allowLocal true ip := by
  induction ips generalizing sawLoopback with
  | nil =>
    cases sawLoopback <;> cases allowLocal <;>
      simp [checkResolved, localhostRefused_ne_ok]
  | cons ip rest ih =>
    have hbench := isBenchmarkTestingIP_iff ip
    rw [List.forall_mem_cons, checkResolved]
    by_cases hl : isLoopback ip = true
    · have hp : isPrivateNetworkIP ip = true := (isPrivateNetworkIP_iff ip).mpr (.inr (.inr hl))
      simp only [hl, if_true, ih, Opened, true_or]
      tauto
    · by_cases hp : isPrivateNetworkIP ip = true
      · by_cases hb : (allowLocal && isBenchmarkTestingIP ip) = true
        · rw [if_neg hl, if_pos hp, if_pos hb, ih]
          rw [Bool.and_eq_true, hbench] at hb
          simp [Opened, hb.1, hb.2]
        · rw [if_neg hb]
          rw [Bool.and_eq_true] at hb
          simp [Opened, hl, hp]
          tauto
      · simp [hl, hp, ih]

/-- The checks of addresses, made for the addresses of the host whatever its spelling. -/
def Vetted (lib : NetLib) (host : String) (constraints : NetConstraints) : Prop :=
  match literalIP host with
  | some ip => checkLiteral constraints.permitsLocal host ip = .ok ()
  | none => checkLookup lib constraints.permitsLocal host = .ok ()

/-- A host whose addresses the guard does not look at: an address with a zone, which `net.ParseIP`
    does not read, and a spelling of a loopback address that is not the address itself. -/
def Overlooked (host : String) : Bool :=
  (parseAddr (literalHost host)).any (fun a => a.zone ≠ "") ||
    isLoopbackHost host && host ∉ ["127.0.0.1", "::1", "[::1]"]

/-- What is to hold of an accepted host for the guard to have kept its purpose. -/
structure Guarded (lib : NetLib) (host : String) (constraints : NetConstraints) : Prop where
  dots : ∀ entry ∈ constraints.denyHosts,
    hostMatchesEntry (dnsName host) (dnsName (trimSpace entry)) = false
  unspecified : 0#128 ∉ addresses lib host
  vetted : Overlooked host = true → Vetted lib host constraints

/-! ## Accepted hosts -/

section

variable {lib : NetLib} {host : String} {constraints : NetConstraints}

theorem literalIP_of_parseIP (h : parseIP (literalHost host) = some ip) :
    literalIP host = some ip := by
  rw [parseIP, Option.map_eq_some_iff] at h
  obtain ⟨a, ha, rfl⟩ := h
  rw [literalIP, (Option.filter_eq_some_iff.mp ha).1]
  rfl

/-- A text that is an address, but not for `net.ParseIP`, has a zone. -/
theorem overlooked_of_zone (hlit : literalIP host = some ip)
    (h : parseIP (literalHost host) = none) : Overlooked host = true := by
  rw [literalIP, Option.map_eq_some_iff] at hlit
  obtain ⟨a, ha, -⟩ := hlit
  rw [parseIP] at h
  rw [Overlooked]
  by_cases hz : a.zone = "" <;> simp_all

section Accepted

variable (hallow : constraints.allowHosts = []) (hprivate : constraints.allowPrivate = false)
  (h : checkHostSSRF lib host constraints = .ok ())

include hallow hprivate h

/-- The ways to be accepted without an allow list and without access to private networks. -/
theorem accepted_cases : hostMatchesList host constraints.denyHosts = false ∧
      (isLoopbackHost host = true ∧ constraints.permitsLocal = true ∨
        (∃ ip, parseIP (literalHost host) = some ip ∧
          checkLiteral constraints.permitsLocal host ip = .ok ()) ∨
        parseIP (literalHost host) = none ∧
          checkLookup lib constraints.permitsLocal host = .ok ()) := by
  rw [checkHostSSRF, hallow, hprivate] at h
  split_ifs at h with hblank hlist hmem hdeny hopen hloop hlocal
  · cases h
  · exact absurd rfl hlist
  · exact absurd rfl hlist
  · cases h
  · cases hopen
  · exact ⟨Bool.not_eq_true _ ▸ hdeny, .inl ⟨hloop, hlocal⟩⟩
  · cases h
  · refine ⟨Bool.not_eq_true _ ▸ hdeny, .inr ?_⟩
    cases hip : parseIP (literalHost host) with
    | some ip => exact .inl ⟨ip, rfl, by rwa [hip] at h⟩
    | none => exact .inr ⟨rfl, by rwa [hip] at h⟩

/-- The guard checks the addresses of every host it does not overlook. -/
theorem vetted_of_accepted (hseen : Overlooked host = false) : Vetted lib host constraints := by
  obtain ⟨-, ⟨hloop, hlocal⟩ | ⟨ip, hip, hcheck⟩ | ⟨hip, hcheck⟩⟩ :=
    accepted_cases hallow hprivate h
  · -- What is left of the loopback hosts is three addresses.
    have hmem : host ∈ ["127.0.0.1", "::1", "[::1]"] := by
      by_contra hnot
      simp [Overlooked, hloop, hnot] at hseen
    have hlit : ∀ s ∈ ["127.0.0.1", "::1", "[::1]"], (literalIP s).any isLoopback = true := by
      decide +kernel
    have hl := hlit host hmem
    cases hip : literalIP host with
    | none =>
      rw [hip] at hl
      cases hl
    | some ip =>
      rw [hip] at hl
      rw [Vetted, hip]
      exact checkLiteral_eq_ok_iff.mpr fun _ => ⟨hlocal, .inl hl⟩
  · rw [Vetted, literalIP_of_parseIP hip]
    exact hcheck
  · cases hlit : literalIP host with
    | none =>
      rw [Vetted, hlit]
      exact hcheck
    | some ip =>
      rw [overlooked_of_zone hlit hip] at hseen
      cases hseen

/-- An accepted host that does not resolve passed because of local access. -/
theorem permitsLocal_of_unresolved (hlit : literalIP host = none) {err : String}
    (herr : lib.lookupIP host = .error err) : constraints.permitsLocal = true := by
  obtain ⟨-, ⟨-, hlocal⟩ | ⟨ip, hip, -⟩ | ⟨-, hcheck⟩⟩ := accepted_cases hallow hprivate h
  · exact hlocal
  · rw [literalIP_of_parseIP hip] at hlit
    cases hlit
  · rw [checkLookup, herr] at hcheck
    by_contra hlocal
    simp [hlocal, refuse_ne_ok] at hcheck

end Accepted

/-- The checks of addresses decide about all of them but `::`. -/
theorem vetted_iff (hlocal : literalIP host = none → ∀ err, lib.lookupIP host = .error err →
      constraints.permitsLocal = true) :
    Vetted lib host constraints ↔ ∀ ip ∈ addresses lib host, isPrivateNetworkIP ip = true →
      Opened constraints.permitsLocal (literalIP host).isNone ip := by
  rw [Vetted, addresses]
  cases hlit : literalIP host with
  | some ip => simp [checkLiteral_eq_ok_iff]
  | none =>
    cases hlookup : lib.lookupIP host with
    | error err => simp [checkLookup, hlookup, hlocal hlit err hlookup, Except.toOption]
    | ok ips => simp [checkLookup, hlookup, checkResolved_eq_ok_iff, Except.toOption]

theorem not_opened_unspecified (allowLocal resolved : Bool) : ¬ Opened allowLocal resolved 0#128 := by
  rintro ⟨-, h | ⟨-, x, hx, -⟩⟩
  · exact absurd h (by decide)
  · exact absurd hx (by simp [to4])

theorem denies_iff_of_missed (hmiss : hostMatchesList host constraints.denyHosts = false)
    (hentry : entry ∈ constraints.denyHosts) : ¬ Denies (toLower (trimSpace entry)) host ↔
      hostMatchesEntry (dnsName host) (dnsName (trimSpace entry)) = false := by
  rw [hostMatchesList, List.any_eq_false] at hmiss
  rw [denies_iff (Bool.not_eq_true _ ▸ hmiss entry hentry), Bool.not_eq_true]
  rfl

/-- An accepted host is neither denied nor internal exactly if the deny list does not match without
    the dots of the root, `::` is not among its addresses, and the addresses of a host that is
    overlooked pass the checks that were not made. -/
theorem accepted_host_confined_iff (hallow : constraints.allowHosts = [])
    (hprivate : constraints.allowPrivate = false)
    (h : checkHostSSRF lib host constraints = .ok ()) :
    Confined lib host constraints ↔ Guarded lib host constraints := by
  have hmiss := (accepted_cases hallow hprivate h).1
  have hvetted : Vetted lib host constraints ↔ _ :=
    vetted_iff fun hlit err herr => permitsLocal_of_unresolved hallow hprivate h hlit herr
  constructor
  · intro hc
    refine ⟨?_, ?_, ?_⟩
    · intro entry hentry
      exact (denies_iff_of_missed hmiss hentry).mp (hc.name entry hentry)
    · intro hzero
      exact not_opened_unspecified _ _ (hc.addrs _ hzero ((isInternal_iff _).mpr (.inr rfl)))
    · intro _
      refine hvetted.mpr ?_
      intro ip hip hp
      exact hc.addrs ip hip ((isInternal_iff ip).mpr (.inl hp))
  · intro hg
    have hv : Vetted lib host constraints := by
      cases hseen : Overlooked host with
      | true => exact hg.vetted hseen
      | false => exact vetted_of_accepted hallow hprivate h hseen
    refine ⟨?_, ?_⟩
    · intro entry hentry
      exact (denies_iff_of_missed hmiss hentry).mpr (hg.dots entry hentry)
    · intro ip hip hinternal
      rcases (isInternal_iff ip).mp hinternal with hp | rfl
      · exact hvetted.mp hv ip hip hp
      · exact absurd hip hg.unspecified

end

/-- DNS with one public address for every name. -/
def publicDNS : NetLib where
  lookupIP _ := .ok [ofIPv4 0x5db8d822]
  ipString _ := ""

theorem public_host_is_confined :
    Confined publicDNS "example.com" { denyHosts := ["evil.com", ".internal.corp"] } := by
  refine (accepted_host_confined_iff rfl rfl (by decide +kernel)).mpr ⟨?_, ?_, ?_⟩
  · decide +kernel
  · decide +kernel
  · intro hseen
    exact absurd hseen (by decide +kernel)

/-- A denied name with the dot of the root and the unspecified address are accepted, the latter
    also without local access. -/
theorem rooted_name_and_unspecified_pass :
    (checkHostSSRF publicDNS "evil.com." { denyHosts := ["evil.com"] } = .ok () ∧
        ¬ Confined publicDNS "evil.com." { denyHosts := ["evil.com"] }) ∧
      checkHostSSRF publicDNS "::" { allowLocal := some false } = .ok () ∧
        ¬ Confined publicDNS "::" { allowLocal := some false } := by
  refine ⟨⟨by decide +kernel, ?_⟩, by decide +kernel, ?_⟩
  · intro hc
    exact hc.name "evil.com" (by simp) (by decide +kernel)
  · intro hc
    exact not_opened_unspecified _ _
      (hc.addrs 0#128 (by decide +kernel) ((isInternal_iff _).mpr (.inr rfl)))

end Hopclaw.Tools

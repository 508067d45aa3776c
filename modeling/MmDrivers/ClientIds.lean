import Mathlib
import MmDrivers.CarveOut

/-! The consecutive internal ids of the clients: a bijection from the external
ids a configuration has. -/
namespace MmDrivers.ClientIds
open FenceTypes DeviceTree CarveOut

section Ids
variable {k : KernelSizes} {types : List ClientTypeDesc} {t j n ext : Nat} {desc : ClientTypeDesc}

def Beyond (types : List ClientTypeDesc) (ext : Nat) : Prop :=
  ∃ t j desc, ext = hwFenceClientIdIfe t+j ∧ j < msmHwFenceMaxSignalPerClient ∧
    types[hwFenceMaxClientTypeStatic+t]? = some desc ∧ desc.clientsNum ≤ j

def externalIds (types : List ClientTypeDesc) : Set Nat :=
  {ext | ext < hwFenceClientMax ∧ ¬ Beyond types ext}

theorem externalCases (below : ext < hwFenceClientMax) : ext < hwFenceMaxStaticClientsIndex ∨
    ∃ t j, t < 8 ∧ j < msmHwFenceMaxSignalPerClient ∧ ext = hwFenceClientIdIfe t+j := by
  simp only [hwFenceClientMax,hwFenceClientIdIfe,hwFenceMaxStaticClientsIndex,
    msmHwFenceMaxSignalPerClient] at *
  by_cases static : ext < 17
  · exact .inl (by omega)
  · exact .inr ⟨(ext-17)/32,(ext-17) % 32,by omega,by omega,by omega⟩

theorem ParsedTypes.typeAt (parsed : ParsedTypes k types) (configurable : t < 8) :
    ∃ desc, types[hwFenceMaxClientTypeStatic+t]? = some desc ∧
      desc.clientsNum ≤ msmHwFenceMaxSignalPerClient := by
  have length := parsed.length
  have inside : hwFenceMaxClientTypeStatic+t < types.length := by
    unfold hwFenceMaxClientTypeStatic
    omega
  exact ⟨_,List.getElem?_eq_getElem inside,parsed.few _ (List.getElem_mem inside)⟩

theorem privBeyond (found : types[hwFenceMaxClientTypeStatic+t]? = some desc)
    (inside : j < msmHwFenceMaxSignalPerClient) (beyond : desc.clientsNum ≤ j) :
    hwFenceUtilsGetClientIdPriv types (hwFenceClientIdIfe t+j) = hwFenceClientMax := by
  have big : ¬ hwFenceClientIdIfe t+j < hwFenceMaxStaticClientsIndex := by
    simp only [hwFenceMaxStaticClientsIndex,hwFenceClientIdIfe]
    omega
  have type : (hwFenceClientIdIfe t+j-hwFenceMaxStaticClientsIndex)/
      msmHwFenceMaxSignalPerClient = t := by
    simp only [hwFenceMaxStaticClientsIndex,hwFenceClientIdIfe,msmHwFenceMaxSignalPerClient] at *
    omega
  have rest : (hwFenceClientIdIfe t+j-hwFenceMaxStaticClientsIndex) %
      msmHwFenceMaxSignalPerClient = j := by
    simp only [hwFenceMaxStaticClientsIndex,hwFenceClientIdIfe,msmHwFenceMaxSignalPerClient] at *
    omega
  simp only [hwFenceUtilsGetClientIdPriv,if_neg big,type,rest,found,Option.map_some,
    Option.getD_some,if_pos beyond]

theorem subClientsBound (parsed : ParsedTypes k types) (configurable : t ≤ 8) :
    subClients types t ≤ msmHwFenceMaxSignalPerClient*t := by
  induction t with
  | zero => simp [subClients]
  | succ t ih =>
    obtain ⟨desc,found,few⟩ := ParsedTypes.typeAt parsed (t := t) (by omega)
    rw [subClientsNext found,Nat.mul_succ]
    have before := ih (by omega)
    omega

theorem subClientAt (parsed : ParsedTypes k types) (inside : n < subClients types 8) :
    ∃ t desc, t < 8 ∧ types[hwFenceMaxClientTypeStatic+t]? = some desc ∧
      subClients types t ≤ n ∧ n-subClients types t < desc.clientsNum := by
  have upTo : ∀ u ≤ 8, n < subClients types u → ∃ t desc, t < 8 ∧
      types[hwFenceMaxClientTypeStatic+t]? = some desc ∧ subClients types t ≤ n ∧
        n-subClients types t < desc.clientsNum := by
    intro u le
    induction u with
    | zero =>
      intro below
      simp [subClients] at below
    | succ u ih =>
      intro below
      by_cases earlier : n < subClients types u
      · exact ih (by omega) earlier
      · obtain ⟨desc,found,-⟩ := ParsedTypes.typeAt parsed (t := u) (by omega)
        rw [subClientsNext found] at below
        exact ⟨u,desc,by omega,found,by omega,by omega⟩
  exact upTo 8 (Nat.le_refl _) inside

inductive Assigned (types : List ClientTypeDesc) : Nat → Nat → Prop where
  | static {c : Nat} (static : c < hwFenceMaxStaticClientsIndex) : Assigned types c c
  | sub {t j : Nat} {desc : ClientTypeDesc} (type : t < 8)
      (found : types[hwFenceMaxClientTypeStatic+t]? = some desc) (inside : j < desc.clientsNum)
      (few : desc.clientsNum ≤ msmHwFenceMaxSignalPerClient) :
      Assigned types (hwFenceClientIdIfe t+j) (hwFenceMaxStaticClientsIndex+subClients types t+j)

theorem Assigned.priv (assigned : Assigned types ext n) :
    hwFenceUtilsGetClientIdPriv types ext = n := by
  cases assigned with
  | static static => exact privStatic static
  | sub _ found inside few => exact privConfigured found inside few

theorem Assigned.below (assigned : Assigned types ext n) :
    n < hwFenceMaxStaticClientsIndex+subClients types 8 := by
  cases assigned with
  | static static => omega
  | @sub t j desc type found inside few =>
    have next := subClientsNext found
    have mono : subClients types (t+1) ≤ subClients types 8 := subClientsMono (by omega)
    omega

theorem assignedOf (parsed : ParsedTypes k types) (external : ext ∈ externalIds types) :
    ∃ n, Assigned types ext n := by
  obtain ⟨below,configured⟩ := external
  rcases externalCases below with static | ⟨t,j,type,inside,rfl⟩
  · exact ⟨ext,.static static⟩
  · obtain ⟨desc,found,few⟩ := ParsedTypes.typeAt parsed type
    refine ⟨_,.sub type found ?_ few⟩
    by_contra beyond
    exact configured ⟨t,j,desc,rfl,inside,found,by omega⟩

theorem Assigned.external (assigned : Assigned types ext n) : ext ∈ externalIds types := by
  cases assigned with
  | static static =>
    refine ⟨?_,fun listed => ?_⟩
    · simp only [hwFenceClientMax,hwFenceMaxStaticClientsIndex,hwFenceClientIdIfe,
        msmHwFenceMaxSignalPerClient] at *
      omega
    · obtain ⟨t,j,desc,same,-⟩ := listed
      simp only [hwFenceMaxStaticClientsIndex,hwFenceClientIdIfe] at *
      omega
  | @sub t j desc type found inside few =>
    refine ⟨?_,fun listed => ?_⟩
    · simp only [hwFenceClientMax,hwFenceClientIdIfe,msmHwFenceMaxSignalPerClient] at *
      omega
    · obtain ⟨u,i,other,same,small,here,beyond⟩ := listed
      simp only [hwFenceClientIdIfe,msmHwFenceMaxSignalPerClient] at *
      have type : u = t := by omega
      subst type
      rw [found] at here
      cases Option.some.inj here
      omega

theorem Assigned.increasing {ext' n' : Nat} (left : Assigned types ext n)
    (right : Assigned types ext' n') (lt : ext < ext') : n < n' := by
  cases left with
  | static static =>
    cases right with
    | static => exact lt
    | sub => omega
  | @sub t j desc type found inside few =>
    cases right with
    | static static =>
      simp only [hwFenceClientIdIfe,hwFenceMaxStaticClientsIndex] at *
      omega
    | @sub u i other type' found' inside' few' =>
      simp only [hwFenceClientIdIfe,msmHwFenceMaxSignalPerClient] at lt few few'
      by_cases same : t = u
      · subst same
        omega
      · have next := subClientsNext found
        have mono : subClients types (t+1) ≤ subClients types u := subClientsMono (by omega)
        omega

theorem assignedAt (parsed : ParsedTypes k types)
    (below : n < hwFenceMaxStaticClientsIndex+subClients types 8) : ∃ ext, Assigned types ext n := by
  by_cases static : n < hwFenceMaxStaticClientsIndex
  · exact ⟨n,.static static⟩
  · obtain ⟨t,desc,type,found,from_,inside⟩ := subClientAt parsed
      (n := n-hwFenceMaxStaticClientsIndex) (by omega)
    obtain ⟨desc',found',few⟩ := ParsedTypes.typeAt parsed type
    rw [found] at found'
    cases Option.some.inj found'
    have whole : hwFenceMaxStaticClientsIndex+subClients types t+
        (n-hwFenceMaxStaticClientsIndex-subClients types t) = n := by omega
    have sub := Assigned.sub type found inside few
    rw [whole] at sub
    exact ⟨_,sub⟩

/-- The consolidation of the external ids. -/
structure Consolidates (types : List ClientTypeDesc) (clientsNum : Nat) : Prop where
  invalid : ∀ ext < hwFenceClientMax,
    hwFenceUtilsGetClientIdPriv types ext = hwFenceClientMax ↔ Beyond types ext
  increasing : StrictMonoOn (hwFenceUtilsGetClientIdPriv types) (externalIds types)
  onto : Set.BijOn (hwFenceUtilsGetClientIdPriv types) (externalIds types) (Set.Iio clientsNum)

theorem consolidates (parsed : ParsedTypes k types) :
    Consolidates types (hwFenceMaxStaticClientsIndex+subClients types 8) := by
  have increasing : StrictMonoOn (hwFenceUtilsGetClientIdPriv types) (externalIds types) := by
    intro a ma b mb lt
    obtain ⟨n,left⟩ := assignedOf parsed ma
    obtain ⟨n',right⟩ := assignedOf parsed mb
    rw [left.priv,right.priv]
    exact left.increasing right lt
  refine ⟨fun ext below => ⟨fun invalid => ?_,fun ⟨t,j,desc,same,inside,found,beyond⟩ => ?_⟩,
    increasing,fun ext external => ?_,increasing.injOn,fun n below => ?_⟩
  · by_contra configured
    obtain ⟨n,assigned⟩ := assignedOf parsed ⟨below,configured⟩
    have small := assigned.below
    have bound := subClientsBound parsed (Nat.le_refl 8)
    rw [assigned.priv] at invalid
    simp only [hwFenceClientMax,hwFenceMaxStaticClientsIndex,hwFenceClientIdIfe,
      msmHwFenceMaxSignalPerClient] at *
    omega
  · rw [same]
    exact privBeyond found inside beyond
  · obtain ⟨n,assigned⟩ := assignedOf parsed external
    rw [assigned.priv]
    exact assigned.below
  · obtain ⟨ext,assigned⟩ := assignedAt parsed below
    exact ⟨ext,assigned.external,assigned.priv⟩

end Ids
end MmDrivers.ClientIds

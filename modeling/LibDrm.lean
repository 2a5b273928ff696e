import LibDrm.Gem.Rollback
import LibDrm.Gem.Threads
import LibDrm.Gem.Failure
import LibDrm.Gem.Errors
import LibDrm.Hash.Delete
import LibDrm.SL.Iterate
import LibDrm.Bof.Dump
import LibDrm.Fake.Waiting
import LibDrm.Radeon.Limits
import LibDrm.Radeon.Submit
import LibDrm.Freedreno.Flush
import LibDrm.Freedreno.Twins
import LibDrm.Nouveau.Lifetime
import LibDrm.Nouveau.Clients
import LibDrm.Nouveau.Import
import LibDrm.Exynos.Whole
import LibDrm.Mode.Events
import LibDrm.Mode.Snapshot
import LibDrm.Freedreno.Retire
import LibDrm.Freedreno.Slices
import LibDrm.Omap.Lifetime
import LibDrm.Radeon.Map
import LibDrm.Fake.Walks
import LibDrm.Nouveau.Shown
import LibDrm.Nouveau.Records
import LibDrm.Gem.Storage
import LibDrm.Mm.Whole
import LibDrm.Mm.Wrap
import LibDrm.Random.Generator
import LibDrm.Gem.References
import LibDrm.Gem.Refusal
import LibDrm.Gem.Ageing
import LibDrm.Gem.Tiled
import LibDrm.Gem.Aub
import LibDrm.Fake.Failed
import LibDrm.Decode.Histories
import LibDrm.Lock.Hardware
import LibDrm.Hash.Tags
import LibDrm.Mip.Best
import LibDrm.Nouveau.Accounts
import LibDrm.Nouveau.Residency

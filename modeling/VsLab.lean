import VsLab.ClientReport
import VsLab.PrimeFactors
import VsLab.Relay
import VsLab.NewestRequest
import VsLab.Faults
import VsLab.Removal
import VsLab.ClientRequests
import VsLab.SharedGroup
import VsLab.FirstSlice
import VsLab.Factorable
import VsLab.Restarts
import VsLab.Slicing
import VsLab.GiveUp
import VsLab.CycleCount
import VsLab.GroupNoise
import VsLab.NumberStream
import VsLab.CommandLine
import VsLab.GroupAddress
import VsLab.RhoArithmetic
import VsLab.ResumeRefinement
import VsLab.GroupCoverage
import VsLab.GroupMembership
import VsLab.Dispatch

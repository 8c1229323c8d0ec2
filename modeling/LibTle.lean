import LibTle.Basic
import LibTle.Rwlock
import LibTle.Spinlock
import LibTle.RwlockAsm
import LibTle.Htm
import LibTle.HtmSpinMutex
import LibTle.HtmSpinSharedMutex
import LibTle.SpinMutex
import LibTle.Counter
import LibTle.Nesting
import LibTle.HtmSpinMutexProfile
import LibTle.HtmSpinSharedMutexProfile
import LibTle.Profile
import LibTle.AsmRefinement
import LibTle.SpinSharedMutexX86
import LibTle.HtmSpinSharedMutexA64
import LibTle.MutexA64
import LibTle.RwlockProgress
import LibTle.Termination
import LibTle.BenchTotals
